import SynthHiresBridge.Daemon.NetworkFetch

namespace Daemon

namespace NetworkFetch

open UrlHost

/-- 169.254.169.254, 100.100.100.200 and 168.63.129.16. -/
def listedIpv4 : List (BitVec 32) :=
  [0xA9FEA9FE#32, 0x646464C8#32, 0xA83F8110#32]

/-- fd00:ec2::254. -/
def listedIpv6 : BitVec 128 :=
  0xFD000EC2000000000000000000000254#128

def listedName : String := "metadata.google.internal"

/-- A host means a listed address in either family, or the listed name in either case. -/
def DenotesListed : UrlHost.Host → Prop
  | .domain name => Text.lower name.toList = listedName.toList ∨
      Text.lower name.toList = listedName.toList ++ ['.']
  | .ipv4 address => address ∈ listedIpv4
  | .ipv6 address => address = listedIpv6 ∨ ∃ inner ∈ listedIpv4, address = mapped inner

def Metadata (url : Url) : Prop :=
  ∃ host, url.host = some host ∧ DenotesListed host

/-- The host is a listed IPv4 address in the form of an IPv6 address. -/
def MappedListed (url : Url) : Prop :=
  ∃ inner ∈ listedIpv4, url.host = some (.ipv6 (mapped inner))

def NoneRequested (client : Client) (servers : Servers) (request : NetworkFetchRequest) : Prop :=
  ∀ url ∈ (fetchNetwork client servers request).requested, ¬ Metadata url

/-- No server that is asked redirects to a listed host, as long as redirects are followed. -/
def RedirectsAway (client : Client) (servers : Servers) : Nat → List Url → Url → Prop
  | 0, _, _ => True
  | left + 1, before, url => ∀ response next, servers (before ++ [url]) = .ok response →
      client.redirect url response = some next → isHttp next = true →
        ¬ Metadata next ∧ RedirectsAway client servers left (before ++ [url]) next

/-- A request that is sent has no mapped address, and no server redirects it to a listed host. -/
def StaysAway (client : Client) (servers : Servers) (request : NetworkFetchRequest) : Prop :=
  ∀ url, prepare client request = .ok url →
    ¬ MappedListed url ∧ RedirectsAway client servers 10 [] url

theorem toList_listedName : listedName.toList = ['m', 'e', 't', 'a', 'd', 'a', 't', 'a', '.', 'g',
    'o', 'o', 'g', 'l', 'e', '.', 'i', 'n', 't', 'e', 'r', 'n', 'a', 'l'] := by
  decide

theorem guard_ipv4 : ∀ address ∈ listedIpv4, isCloudMetadataHost (ipv4Text address) = true := by
  have texts : ipv4Text 0xA9FEA9FE#32 = "169.254.169.254" ∧
      ipv4Text 0x646464C8#32 = "100.100.100.200" ∧ ipv4Text 0xA83F8110#32 = "168.63.129.16" := by
    decide
  have known : isCloudMetadataHost "169.254.169.254" = true ∧
      isCloudMetadataHost "100.100.100.200" = true ∧
        isCloudMetadataHost "168.63.129.16" = true := by
    decide
  intro address listed
  simp only [listedIpv4, List.mem_cons, List.not_mem_nil, or_false] at listed
  rcases listed with rfl | rfl | rfl
  · rw [texts.1]
    exact known.1
  · rw [texts.2.1]
    exact known.2.1
  · rw [texts.2.2]
    exact known.2.2

theorem guard_ipv6 : isCloudMetadataHost (Host.ipv6 listedIpv6).text = true := by
  have text : (Host.ipv6 listedIpv6).text = "[fd00:ec2::254]" := by decide
  rw [text]
  decide

/-- The check finds every listed host but the mapped ones, whatever the text of the URL was. -/
theorem guard_of_metadata {url : Url} (metadata : Metadata url) :
    MappedListed url ∨ isCloudMetadataHost ((hostStr url).getD "") = true := by
  obtain ⟨host, same, denotes⟩ := metadata
  have text : (hostStr url).getD "" = host.text := by rw [hostStr, same]; rfl
  rw [text]
  cases host with
  | domain name =>
      right
      rcases denotes with plain | dotted
      · rw [isCloudMetadataHost, Host.text, plain, toList_listedName]
        decide
      · rw [isCloudMetadataHost, Host.text, dotted, toList_listedName]
        decide
  | ipv4 address =>
      exact .inr (guard_ipv4 address denotes)
  | ipv6 address =>
      rcases denotes with rfl | ⟨inner, listed, rfl⟩
      · exact .inr guard_ipv6
      · exact .inl ⟨inner, listed, same⟩

theorem checkUrl_ok {client : Client} {request : NetworkFetchRequest} {url : Url}
    (passed : checkUrl client request = .ok url) :
    isHttp url = true ∧ isCloudMetadataHost ((hostStr url).getD "") = false := by
  unfold checkUrl at passed
  split at passed
  · cases passed
  · split at passed
    · cases passed
    · rename_i http
      split at passed
      · cases passed
      · rename_i free
        obtain rfl := Except.ok.inj passed
        exact ⟨by simpa using http, by simpa using free⟩

theorem prepare_ok {client : Client} {request : NetworkFetchRequest} {url : Url}
    (prepared : prepare client request = .ok url) : checkUrl client request = .ok url := by
  unfold prepare at prepared
  split at prepared
  · cases prepared
  · rename_i checked
    split at prepared
    · cases prepared
    · split at prepared
      · cases prepared
      · split at prepared
        · cases prepared
        · rw [checked, prepared]

/-- A URL that passed the check is listed only by its mapped form. -/
theorem metadata_of_prepared {client : Client} {request : NetworkFetchRequest} {url : Url}
    (prepared : prepare client request = .ok url) : Metadata url ↔ MappedListed url := by
  constructor
  · intro metadata
    rcases guard_of_metadata metadata with mapped | blocked
    · exact mapped
    · rw [(checkUrl_ok (prepare_ok prepared)).2] at blocked
      cases blocked
  · rintro ⟨inner, listed, same⟩
    exact ⟨_, same, .inr ⟨inner, listed, rfl⟩⟩

theorem follow_other {client : Client} {servers : Servers} {url : Url} (other : isHttp url = false)
    (left : Nat) (before : List Url) : (follow client servers left before url).1 = [] := by
  rw [follow, other]
  rfl

/-- A chain of requests stays away from listed hosts if and only if each of its redirects does. -/
theorem follow_iff {client : Client} {servers : Servers} (left : Nat) (before : List Url) {url : Url}
    (http : isHttp url = true) :
    (∀ asked ∈ (follow client servers left before url).1, ¬ Metadata asked) ↔
      ¬ Metadata url ∧ RedirectsAway client servers left before url := by
  induction left generalizing before url with
  | zero =>
      have only : (follow client servers 0 before url).1 = [url] := by
        rw [follow, if_neg (by simp [http])]
        split
        · rfl
        · split
          · rfl
          · rfl
      rw [only, RedirectsAway]
      simp
  | succ left ih =>
      rw [RedirectsAway, follow, if_neg (by simp [http])]
      split
      · rename_i error failed
        simp [failed]
      · rename_i response answered
        split
        · rename_i stays
          simp only [List.mem_singleton, forall_eq, iff_self_and]
          intro _ other next same target
          obtain rfl := Except.ok.inj (answered.symm.trans same)
          rw [stays] at target
          cases target
        · rename_i next target
          rw [List.forall_mem_cons]
          refine and_congr_right fun _ => ?_
          constructor
          · intro later other following same redirected web
            obtain rfl := Except.ok.inj (answered.symm.trans same)
            obtain rfl := Option.some.inj (target.symm.trans redirected)
            exact (ih _ web).mp later
          · intro away
            cases web : isHttp next with
            | false =>
                rw [follow_other web]
                exact nofun
            | true => exact (ih _ web).mpr (away response next answered target web)

theorem requested_of_prepared {client : Client} (servers : Servers) {request : NetworkFetchRequest}
    {url : Url} (prepared : prepare client request = .ok url) :
    (fetchNetwork client servers request).requested = (follow client servers 10 [] url).1 := by
  rw [fetchNetwork, prepared]
  dsimp only
  split
  · rfl
  · rfl

/-- A client that reads a host up to the first slash. -/
def slashClient : Client where
  domainToAscii name := some (String.ofList (Text.lower name.toList))
  cut text :=
    match Text.splitOnce "://".toList text.toList with
    | none => .error "relative URL without a base"
    | some (scheme, rest) =>
        .ok ⟨String.ofList scheme, some (String.ofList (rest.takeWhile (· ≠ '/'))),
          String.ofList (rest.dropWhile (· ≠ '/'))⟩
  hostError _ := "invalid IPv4 address"
  join _ location :=
    (Text.splitOnce "://".toList location.toList).map fun cut =>
      ⟨String.ofList cut.1, some (String.ofList (cut.2.takeWhile (· ≠ '/'))),
        String.ofList (cut.2.dropWhile (· ≠ '/'))⟩
  method := .ok
  headerName := .ok
  headerValue := .ok
  builds _ := .ok ()

def frontPage : Url :=
  ⟨"http", some (.domain "example.com"), "/"⟩

def credentials : Url :=
  ⟨"http", some (.ipv4 0xA9FEA9FE#32), "/latest/meta-data/"⟩

def frontPageRequest : NetworkFetchRequest :=
  ⟨"http://example.com/", "GET", [], none, none, none⟩

theorem frontPage_prepared : prepare slashClient frontPageRequest = .ok frontPage := by
  have cut : slashClient.cut frontPageRequest.url = .ok ⟨"http", some "example.com", "/"⟩ := by
    decide
  have host : slashClient.resolve ⟨"http", some "example.com", "/"⟩ = some frontPage := by
    decide
  have free : isCloudMetadataHost ((hostStr frontPage).getD "") = false := by decide
  have checked : checkUrl slashClient frontPageRequest = .ok frontPage := by
    simp only [checkUrl, Client.parse, cut, host, free]
    rfl
  simp only [prepare, checked]
  rfl

/-- The first server that is asked redirects to the credentials. -/
def redirecting : Servers := fun asked =>
  if asked.length = 1 then .ok ⟨302, [], some "http://169.254.169.254/latest/meta-data/", []⟩
  else .ok ⟨200, [], none, []⟩

theorem redirecting_reaches_metadata :
    ¬ NoneRequested slashClient redirecting frontPageRequest := by
  intro none
  have target : slashClient.join frontPage "http://169.254.169.254/latest/meta-data/" =
      some ⟨"http", some "169.254.169.254", "/latest/meta-data/"⟩ := by decide
  have host : slashClient.resolve ⟨"http", some "169.254.169.254", "/latest/meta-data/"⟩ =
      some credentials := by decide
  have first : redirecting ([] ++ [frontPage]) =
      .ok ⟨302, [], some "http://169.254.169.254/latest/meta-data/", []⟩ := rfl
  have redirected : slashClient.redirect frontPage
      ⟨302, [], some "http://169.254.169.254/latest/meta-data/", []⟩ = some credentials := by
    rw [Client.redirect, Option.bind_some, target, Option.bind_some, host]
    rfl
  have asked : (follow slashClient redirecting 10 [] frontPage).1 = [frontPage, credentials] := by
    rw [follow, if_neg (by decide), first]
    simp only [redirected]
    rfl
  have requested : (fetchNetwork slashClient redirecting frontPageRequest).requested =
      [frontPage, credentials] := by
    rw [requested_of_prepared redirecting frontPage_prepared, asked]
  refine none credentials ?_ ⟨_, rfl, ?_⟩
  · rw [requested]
    exact List.mem_cons_of_mem _ List.mem_cons_self
  · show _ ∈ listedIpv4
    decide

/-- A fetch asks no listed host if and only if its URL has no mapped address of one and no server
that is asked redirects to one. -/
theorem no_metadata_requested_iff (client : Client) (servers : Servers) (request : NetworkFetchRequest) :
    NoneRequested client servers request ↔ StaysAway client servers request := by
  rw [NoneRequested, StaysAway]
  cases prepared : prepare client request with
  | error error =>
      have nothing : (fetchNetwork client servers request).requested = [] := by
        rw [fetchNetwork, prepared]
        rfl
      rw [nothing]
      exact iff_of_true nofun nofun
  | ok url =>
      have http := (checkUrl_ok (prepare_ok prepared)).1
      rw [requested_of_prepared servers prepared, follow_iff 10 [] http,
        metadata_of_prepared prepared]
      constructor
      · rintro away _ ⟨⟩
        exact away
      · intro away
        exact away url rfl

end NetworkFetch

end Daemon

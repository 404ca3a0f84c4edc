import SynthHiresBridge.Proof.MetadataHosts

namespace Daemon

namespace NetworkFetch

/-- The limit of a body is at least one byte. -/
def bodyLimit (request : NetworkFetchRequest) : Nat :=
  clamp (request.maxBytes.getD (2 * 1024 * 1024)) 1 (2 * 1024 * 1024)

/-- A result has the front of a body up to a limit, and it tells whether more was there. -/
structure Exact (limit : Nat) (body : List UInt8) (result : NetworkFetchResult) : Prop where
  bytes : result.bytes = min body.length limit
  kept : result.body = Text.lossy (body.take limit)
  truncated : result.truncated = true ↔ limit < body.length

/-- A fetch is exact, and any other way to cut the body into chunks gives the same result. -/
structure Faithful (client : Client) (servers : Servers) (request : NetworkFetchRequest)
    (response : Response) (chunks : List (List UInt8)) : Prop where
  exact : ∃ result, (fetchNetwork client servers request).result = .ok result ∧
    Exact (bodyLimit request) chunks.flatten result
  independent : ∀ others : List (List UInt8), others.flatten = chunks.flatten →
    readResponse (bodyLimit request) { response with chunks := others.map .ok } =
      (fetchNetwork client servers request).result

section Body

theorem bodyLimit_pos (request : NetworkFetchRequest) : 0 < bodyLimit request := by
  rw [bodyLimit, clamp]
  exact Nat.le_min.mpr ⟨Nat.le_max_right _ _, by decide⟩

/-- As long as there is room, the chunks are read like the body they make, and a body that fills
the room counts as cut off. -/
theorem readBody_chunks {limit : Nat} (chunks : List (List UInt8)) {bytes : List UInt8}
    (room : bytes.length < limit) : readBody limit bytes (chunks.map .ok) =
      .ok ((bytes ++ chunks.flatten).take limit, decide (limit ≤ (bytes ++ chunks.flatten).length)) := by
  induction chunks generalizing bytes with
  | nil =>
      have whole : (bytes ++ ([] : List (List UInt8)).flatten) = bytes := List.append_nil bytes
      rw [whole, List.take_of_length_le (Nat.le_of_lt room), decide_eq_false (by omega)]
      rfl
  | cons chunk chunks ih =>
      rw [List.map_cons, readBody, List.flatten_cons]
      by_cases beyond : chunk.length > limit - bytes.length
      · have filled : limit ≤ (bytes ++ (chunk ++ chunks.flatten)).length := by
          rw [List.length_append, List.length_append]
          omega
        have front : (bytes ++ (chunk ++ chunks.flatten)).take limit =
            bytes ++ chunk.take (limit - bytes.length) := by
          rw [List.take_append, List.take_of_length_le (Nat.le_of_lt room),
            List.take_append_of_le_length (Nat.le_of_lt beyond)]
        rw [if_pos beyond, front, decide_eq_true filled]
      · rw [if_neg beyond]
        by_cases full : (bytes ++ chunk).length ≥ limit
        · have size : (bytes ++ chunk).length = limit := by
            rw [List.length_append] at full ⊢
            omega
          have filled : limit ≤ (bytes ++ chunk ++ chunks.flatten).length := by
            rw [List.length_append]
            omega
          rw [if_pos full, ← List.append_assoc, List.take_append_of_le_length full,
            List.take_of_length_le (Nat.le_of_eq size), decide_eq_true filled]
        · rw [if_neg full, ih (Nat.lt_of_not_le full), List.append_assoc]

/-- A response is read by its body alone. -/
theorem readResponse_chunks {limit : Nat} (room : 0 < limit) {response : Response}
    {chunks : List (List UInt8)} (split : response.chunks = chunks.map .ok) :
    ∃ result, readResponse limit response = .ok result ∧
      result.bytes = min chunks.flatten.length limit ∧
      result.body = Text.lossy (chunks.flatten.take limit) ∧
      result.truncated = decide (limit ≤ chunks.flatten.length) := by
  rw [readResponse, split, readBody_chunks chunks room, List.nil_append]
  have size : (chunks.flatten.take limit).length = min chunks.flatten.length limit := by
    rw [List.length_take, Nat.min_comm]
  exact ⟨_, rfl, size, rfl, rfl⟩

theorem readResponse_independent {limit : Nat} (room : 0 < limit) {response : Response}
    {chunks others : List (List UInt8)} (split : response.chunks = chunks.map .ok)
    (same : others.flatten = chunks.flatten) :
    readResponse limit { response with chunks := others.map .ok } = readResponse limit response := by
  rw [readResponse, readResponse, split, readBody_chunks chunks room, readBody_chunks others room, same]

theorem fetchNetwork_read {client : Client} {servers : Servers} {request : NetworkFetchRequest}
    {url : Url} {response : Response} (prepared : prepare client request = .ok url)
    (answered : (follow client servers 10 [] url).2 = .ok response) :
    (fetchNetwork client servers request).result = readResponse (bodyLimit request) response := by
  rw [fetchNetwork, prepared]
  simp only [answered]
  rfl

end Body

/-- A fetch whose body is read to its end is exact just where the body does not fill the limit
exactly: a body of that very length is reported as cut off. -/
theorem fetch_exact_iff {client : Client} {servers : Servers} {request : NetworkFetchRequest}
    {url : Url} {response : Response} {chunks : List (List UInt8)}
    (prepared : prepare client request = .ok url)
    (answered : (follow client servers 10 [] url).2 = .ok response)
    (split : response.chunks = chunks.map .ok) :
    Faithful client servers request response chunks ↔
      chunks.flatten.length ≠ bodyLimit request := by
  have room := bodyLimit_pos request
  have fetched := fetchNetwork_read prepared answered
  obtain ⟨result, read, bytes, kept, truncated⟩ := readResponse_chunks room split
  constructor
  · rintro ⟨⟨other, own, exactly⟩, -⟩ size
    rw [fetched, read] at own
    obtain rfl := Except.ok.inj own
    have flag := exactly.truncated
    rw [truncated, decide_eq_true_iff] at flag
    omega
  · intro other
    refine ⟨⟨result, by rw [fetched, read], bytes, kept, ?_⟩, ?_⟩
    · rw [truncated, decide_eq_true_iff]
      omega
    · intro others same
      rw [fetched]
      exact readResponse_independent room split same

/-- A server that answers with two chunks. -/
def greeting : Response :=
  ⟨200, [], none, [.ok [104], .ok [105]]⟩

def greeter : Servers := fun _ => .ok greeting

theorem greeting_answered : (follow slashClient greeter 10 [] frontPage).2 = .ok greeting := by
  have first : greeter ([] ++ [frontPage]) = .ok greeting := rfl
  rw [follow, if_neg (by decide), first]
  rfl

theorem greeting_fetched_exactly :
    Faithful slashClient greeter frontPageRequest greeting [[104], [105]] :=
  (fetch_exact_iff frontPage_prepared greeting_answered rfl).mpr (by decide)

def shortRequest : NetworkFetchRequest :=
  { frontPageRequest with maxBytes := some 2 }

/-- A body of two bytes fills a limit of two bytes, and it is reported as cut off. -/
theorem filled_limit_not_exact :
    ¬ Faithful slashClient greeter shortRequest greeting [[104], [105]] := by
  intro faithful
  obtain ⟨result, fetched, exactly⟩ := faithful.exact
  have prepared : prepare slashClient shortRequest = .ok frontPage := frontPage_prepared
  obtain ⟨own, read, -, -, truncated⟩ := @readResponse_chunks (bodyLimit shortRequest)
    (bodyLimit_pos shortRequest) greeting [[104], [105]] rfl
  rw [fetchNetwork_read prepared greeting_answered, read] at fetched
  obtain rfl := Except.ok.inj fetched
  have flag := exactly.truncated
  rw [truncated] at flag
  exact absurd flag (by decide)

end NetworkFetch

end Daemon

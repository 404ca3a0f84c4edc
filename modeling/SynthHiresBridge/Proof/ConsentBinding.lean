import SynthHiresBridge.Android.Consent
import SynthHiresBridge.Transition.Tickets

namespace Android

open Transition

/-- The tickets of the requests that got a result. -/
def settled (history : List Happening) : List Nat :=
  history.filterMap fun
    | .result request _ => some request.ticket
    | _ => none

theorem settled_append (before after : List Happening) :
    settled (before ++ after) = settled before ++ settled after :=
  List.filterMap_append

/-- A tap acts on the request that its dialog displayed, and the response has the id of that
request. -/
structure Faithful (history : List Happening) : Prop where
  dispatches : ∀ request dialog, .dispatched request (some dialog) ∈ history →
    request = dialog.shown
  allows : ∀ dialog button request, .answered dialog button request ∈ history →
    button.approved = true → .dispatched dialog.shown (some dialog) ∈ history
  responses : ∀ ws frame dialog, .response ws frame dialog ∈ history →
    frame.id = dialog.shown.frame.id

/-- A happening that is faithful to what came before it. -/
def Fitting (history : List Happening) : Happening → Prop
  | .response _ frame dialog => frame.id = dialog.shown.frame.id
  | .dispatched request dialog => ∀ shown ∈ dialog, request = shown.shown
  | .result _ _ => True
  | .answered dialog button _ =>
      button.approved = true → .dispatched dialog.shown (some dialog) ∈ history

theorem Faithful.concat {history : List Happening} (faithful : Faithful history)
    {happening : Happening} (fitting : Fitting history happening) :
    Faithful (history ++ [happening]) := by
  refine ⟨?_, ?_, ?_⟩
  · intro request dialog member
    rcases List.mem_append.mp member with before | now
    · exact faithful.dispatches request dialog before
    · obtain rfl := List.mem_singleton.mp now
      exact fitting dialog rfl
  · intro dialog button request member allowed
    apply List.mem_append_left
    rcases List.mem_append.mp member with before | now
    · exact faithful.allows dialog button request before allowed
    · obtain rfl := List.mem_singleton.mp now
      exact fitting allowed
  · intro ws frame dialog member
    rcases List.mem_append.mp member with before | now
    · exact faithful.responses ws frame dialog before
    · obtain rfl := List.mem_singleton.mp now
      exact fitting

namespace Phone

/-- Somebody will still read the slot. -/
def Attended (phone : Phone) : Prop :=
  phone.starting ≠ [] ∨ 0 < phone.intents ∨ phone.dialogs ≠ [] ∨
    ∃ answering ∈ phone.main, answering.stage = .read

/-- The slot or the main thread holds a request that is still to be answered. -/
def Awaits (phone : Phone) (ticket : Nat) : Prop :=
  (phone.Attended ∧ ∃ request ∈ phone.pending, request.ticket = ticket) ∨
    ∃ answering ∈ phone.main, ∃ request, request.ticket = ticket ∧
      (answering.stage = .respond request ∨ answering.stage = .act request)

/-- A request is on its way to its result. -/
def Open (phone : Phone) (ticket : Nat) : Prop :=
  ticket ∈ phone.handling.map Pending.ticket ∨ phone.Awaits ticket ∨
    ticket ∈ phone.running.map Pending.ticket

/-- Every request is on its way or got exactly one result. -/
def Answered (phone : Phone) : Prop :=
  ∀ ticket < phone.arrived,
    (phone.Open ticket ∧ (settled phone.history).count ticket = 0) ∨
      (¬phone.Open ticket ∧ (settled phone.history).count ticket = 1)

/-- The taps are bound to their dialogs, and no request is lost or answered twice. -/
structure Bound (phone : Phone) : Prop where
  faithful : Faithful phone.history
  answered : phone.Answered

/-- What belongs to the consent activity. -/
def desk (phone : Phone) : Option Pending × List Pending × Nat × List Dialog × Option Answering :=
  (phone.pending, phone.starting, phone.intents, phone.dialogs, phone.main)

/-- A request that needs consent comes to an empty slot, and no intent goes to an activity that is
still there. -/
def Unhurried (phone : Phone) : PhoneEvent → Prop
  | .handle place => ∀ request ∈ phone.handling[place]?,
      phone.capabilitiesAllow request.frame.capability = true →
      requiresNativeConsent request.frame.capability = true → phone.pending = none
  | .reuse => phone.intents = 0 ∨ (phone.dialogs = [] ∧ phone.main = none)
  | _ => True

/-- A request in the slot is followed by its intent. -/
inductive Launch : Option Pending → List Pending → Nat → List Nat → Prop where
  | idle : Launch none [] 0 []
  | starting (request : Pending) : Launch (some request) [request] 0 [request.ticket]
  | sent (request : Pending) : Launch (some request) [] 1 [request.ticket]

/-- One request at a time goes through the slot. -/
inductive Turn (phone : Phone) (waiting : List Nat) : Prop where
  | launching {pending : Option Pending} {starting : List Pending} {intents : Nat}
      (desk : phone.desk = (pending, starting, intents, [], none))
      (launch : Launch pending starting intents waiting)
  | asking (dialog : Dialog) (desk : phone.desk = (some dialog.shown, [], 0, [dialog], none))
      (one : waiting = [dialog.shown.ticket])
  | answering (dialog : Dialog) (button : Button) (stage : Stage)
      (desk : phone.desk = (some dialog.shown, [], 0, [], some ⟨dialog, button, stage⟩))
      (early : stage = .read ∨ stage = .respond dialog.shown ∨ stage = .act dialog.shown)
      (one : waiting = [dialog.shown.ticket])
  | clearing (dialog : Dialog) (button : Button)
      (desk : phone.desk =
        (some dialog.shown, [], 0, [], some ⟨dialog, button, .clear dialog.shown⟩))
      (done : button.approved = true → .dispatched dialog.shown (some dialog) ∈ phone.history)
      (none : waiting = [])
  | finishing (dialog : Dialog) (button : Button) {pending : Option Pending}
      {starting : List Pending} {intents : Nat}
      (desk : phone.desk =
        (pending, starting, intents, [], some ⟨dialog, button, .finish (some dialog.shown)⟩))
      (done : button.approved = true → .dispatched dialog.shown (some dialog) ∈ phone.history)
      (launch : Launch pending starting intents waiting)

/-- The desk of a phone has five parts. -/
theorem desk_eq {phone : Phone} {pending : Option Pending} {starting : List Pending} {intents : Nat}
    {dialogs : List Dialog} {main : Option Answering} :
    phone.desk = (pending, starting, intents, dialogs, main) ↔
      phone.pending = pending ∧ phone.starting = starting ∧ phone.intents = intents ∧
        phone.dialogs = dialogs ∧ phone.main = main := by
  rw [desk, Prod.mk.injEq, Prod.mk.injEq, Prod.mk.injEq, Prod.mk.injEq]

theorem Turn.same {phone next : Phone} {waiting : List Nat} (turn : phone.Turn waiting)
    (desk : next.desk = phone.desk) (kept : phone.history ⊆ next.history) : next.Turn waiting := by
  cases turn with
  | launching held launch => exact .launching (desk.trans held) launch
  | asking dialog held one => exact .asking dialog (desk.trans held) one
  | answering dialog button stage held early one =>
      exact .answering dialog button stage (desk.trans held) early one
  | clearing dialog button held done none =>
      exact .clearing dialog button (desk.trans held) (fun allowed => kept (done allowed)) none
  | finishing dialog button held done launch =>
      exact .finishing dialog button (desk.trans held) (fun allowed => kept (done allowed)) launch

/-- The places of the tickets. -/
def places (phone : Phone) (waiting : List Nat) : List Nat :=
  phone.handling.map Pending.ticket ++ waiting ++ phone.running.map Pending.ticket

/-- A request in the slot is still to be read while its intent is on its way. -/
theorem Launch.attended {pending : Option Pending} {starting : List Pending} {intents : Nat}
    {waiting : List Nat} (launch : Launch pending starting intents waiting) (ticket : Nat) :
    ((starting ≠ [] ∨ 0 < intents) ∧ ∃ request ∈ pending, request.ticket = ticket) ↔
      ticket ∈ waiting := by
  cases launch with
  | idle => simp
  | starting request => simp [eq_comm]
  | sent request => simp [eq_comm]

/-- What waits in the slot or at the main thread is what the turn says. -/
theorem awaits_iff {phone : Phone} {waiting : List Nat} (turn : phone.Turn waiting) (ticket : Nat) :
    phone.Awaits ticket ↔ ticket ∈ waiting := by
  cases turn with
  | launching desk launch =>
      obtain ⟨pending, starting, intents, dialogs, main⟩ := desk_eq.mp desk
      rw [← launch.attended ticket]
      simp [Awaits, Attended, pending, starting, intents, dialogs, main]
  | asking dialog desk one =>
      obtain ⟨pending, starting, intents, dialogs, main⟩ := desk_eq.mp desk
      simp [Awaits, Attended, pending, dialogs, main, one, eq_comm]
  | answering dialog button stage desk early one =>
      obtain ⟨pending, starting, intents, dialogs, main⟩ := desk_eq.mp desk
      rcases early with rfl | rfl | rfl
      · simp [Awaits, Attended, pending, main, one, eq_comm]
      · simp [Awaits, Attended, pending, starting, intents, dialogs, main, one, eq_comm]
      · simp [Awaits, Attended, pending, starting, intents, dialogs, main, one, eq_comm]
  | clearing dialog button desk done none =>
      obtain ⟨pending, starting, intents, dialogs, main⟩ := desk_eq.mp desk
      simp [Awaits, Attended, pending, starting, intents, dialogs, main, none]
  | finishing dialog button desk done launch =>
      obtain ⟨pending, starting, intents, dialogs, main⟩ := desk_eq.mp desk
      rw [← launch.attended ticket]
      simp [Awaits, Attended, pending, starting, intents, dialogs, main]

/-- A request is open where it is handled, waits in the slot or runs. -/
theorem open_iff {phone : Phone} {waiting : List Nat} (turn : phone.Turn waiting) (ticket : Nat) :
    phone.Open ticket ↔ ticket ∈ phone.places waiting := by
  rw [Open, awaits_iff turn, places, List.mem_append, List.mem_append, or_assoc]

/-- One request at a time is at the consent activity, and every ticket has one place. -/
structure Orderly (phone : Phone) (waiting : List Nat) : Prop where
  faithful : Faithful phone.history
  turn : phone.Turn waiting
  accounted : Accounted phone.arrived (phone.places waiting ++ settled phone.history)

theorem Orderly.bound {phone : Phone} {waiting : List Nat} (orderly : phone.Orderly waiting) :
    phone.Bound := by
  refine ⟨orderly.faithful, ?_⟩
  intro ticket known
  rw [open_iff orderly.turn]
  exact orderly.accounted.split known

/-- The part of the phone that does not belong to the activity keeps the turn when the requests
only change their places. -/
theorem Orderly.moved {phone next : Phone} {waiting later : List Nat}
    (orderly : phone.Orderly waiting) (faithful : Faithful next.history) (turn : next.Turn later)
    (arrived : next.arrived = phone.arrived)
    (same : ∀ ticket, (next.places later ++ settled next.history).count ticket =
      (phone.places waiting ++ settled phone.history).count ticket) : next.Orderly later := by
  refine ⟨faithful, turn, ?_⟩
  rw [arrived]
  exact orderly.accounted.moved (List.perm_iff_count.mpr same)

/-- A request that leaves a list is counted with the rest of it. -/
theorem count_taken {requests : List Pending} {place : Nat} {request : Pending}
    (held : requests[place]? = some request) (ticket : Nat) :
    (requests.map Pending.ticket).count ticket =
      ((requests.eraseIdx place).map Pending.ticket).count ticket +
        if request.ticket == ticket then 1 else 0 := by
  rw [← ((take_perm held).map Pending.ticket).count_eq ticket, List.map_cons, List.count_cons]

theorem Orderly.arrive {phone : Phone} {waiting : List Nat} (orderly : phone.Orderly waiting)
    (ws : Nat) (frame : ActionRequest) :
    (phone.step (.actionRequest ws frame)).Orderly waiting := by
  refine ⟨orderly.faithful, orderly.turn.same rfl (fun _ member => member), ?_⟩
  apply orderly.accounted.draw.moved
  rw [List.perm_iff_count]
  intro ticket
  simp only [step, places, List.map_append, List.map_cons, List.map_nil, List.count_append,
    List.count_cons, List.count_nil]
  omega

theorem Orderly.update {phone : Phone} {waiting : List Nat} (orderly : phone.Orderly waiting)
    (scopes : BridgeScopes) : (phone.step (.scopeUpdate scopes)).Orderly waiting :=
  ⟨orderly.faithful, orderly.turn.same rfl (fun _ member => member), orderly.accounted⟩

theorem settled_result (history : List Happening) (request : Pending) (frame : ActionResult) :
    settled (history ++ [.result request frame]) = settled history ++ [request.ticket] :=
  settled_append history [.result request frame]

theorem settled_dispatched (history : List Happening) (request : Pending)
    (dialog : Option Dialog) : settled (history ++ [.dispatched request dialog]) = settled history := by
  rw [settled_append]
  exact List.append_nil _

/-- An empty slot takes a request that needs consent. -/
theorem Turn.fill {phone : Phone} {waiting : List Nat} (turn : phone.Turn waiting)
    (empty : phone.pending = none) (request : Pending) :
    waiting = [] ∧ (phone.request request).Turn [request.ticket] := by
  cases turn with
  | launching desk launch =>
      obtain ⟨rfl, rfl, rfl, dialogs, main⟩ := desk_eq.mp desk
      rw [empty] at launch
      generalize starting : phone.starting = nobody at launch
      generalize intents : phone.intents = none at launch
      cases launch with
      | idle =>
          refine ⟨rfl, .launching (desk_eq.mpr ⟨rfl, ?_, intents, dialogs, main⟩) (.starting request)⟩
          exact congrArg (· ++ [request]) starting
  | asking dialog desk one =>
      rw [(desk_eq.mp desk).1] at empty
      cases empty
  | answering dialog button stage desk early one =>
      rw [(desk_eq.mp desk).1] at empty
      cases empty
  | clearing dialog button desk done none =>
      rw [(desk_eq.mp desk).1] at empty
      cases empty
  | finishing dialog button desk done launch =>
      obtain ⟨rfl, rfl, rfl, dialogs, main⟩ := desk_eq.mp desk
      rw [empty] at launch
      generalize starting : phone.starting = nobody at launch
      generalize intents : phone.intents = none at launch
      cases launch with
      | idle =>
          refine ⟨rfl, .finishing dialog button
            (desk_eq.mpr ⟨rfl, ?_, intents, dialogs, main⟩) done (.starting request)⟩
          exact congrArg (· ++ [request]) starting

theorem Orderly.handle {phone : Phone} {waiting : List Nat} (orderly : phone.Orderly waiting)
    (place : Nat) (calm : phone.Unhurried (.handle place)) :
    ∃ later, (phone.step (.handle place)).Orderly later := by
  rw [step]
  cases held : phone.handling[place]? with
  | none => exact ⟨waiting, orderly⟩
  | some request =>
      have taken := count_taken held
      simp only [handleAction]
      split_ifs with refused native
      · refine ⟨waiting, orderly.moved (orderly.faithful.concat trivial)
          (orderly.turn.same rfl (List.subset_append_left _ _)) rfl ?_⟩
        intro ticket
        simp only [sendResult, note, places, settled_result, List.count_append, taken,
          List.count_cons, List.count_nil]
        omega
      · rw [Bool.not_eq_true', Bool.not_eq_false] at refused
        have left : { phone with handling := phone.handling.eraseIdx place }.Turn waiting :=
          orderly.turn.same rfl (fun _ member => member)
        obtain ⟨rfl, filled⟩ := left.fill (calm request held refused native) request
        refine ⟨[request.ticket], orderly.moved orderly.faithful filled rfl ?_⟩
        intro ticket
        simp only [Phone.request, places, List.count_append, taken, List.count_cons,
          List.count_nil]
        omega
      · refine ⟨waiting, orderly.moved (orderly.faithful.concat nofun)
          (orderly.turn.same rfl (List.subset_append_left _ _)) rfl ?_⟩
        intro ticket
        simp only [dispatch, note, places, settled_dispatched, List.map_append, List.map_cons,
          List.map_nil, List.count_append, taken, List.count_cons, List.count_nil]
        omega

/-- The desk alone changes. -/
theorem Orderly.turned {phone next : Phone} {waiting : List Nat} (orderly : phone.Orderly waiting)
    (turn : next.Turn waiting) (history : next.history = phone.history)
    (arrived : next.arrived = phone.arrived) (handling : next.handling = phone.handling)
    (running : next.running = phone.running) : next.Orderly waiting := by
  apply orderly.moved (history ▸ orderly.faithful) turn arrived
  intro ticket
  rw [places, places, history, handling, running]

/-- The intent of the request in the slot is sent. -/
theorem Launch.send {pending : Option Pending} {starting : List Pending} {intents : Nat}
    {waiting : List Nat} (launch : Launch pending starting intents waiting) {place : Nat}
    {request : Pending} (held : starting[place]? = some request) :
    Launch pending (starting.eraseIdx place) (intents + 1) waiting := by
  cases launch with
  | idle => cases held
  | sent only => cases held
  | starting only =>
      cases place with
      | zero => exact .sent only
      | succ later => cases held

theorem Orderly.startActivity {phone : Phone} {waiting : List Nat}
    (orderly : phone.Orderly waiting) (place : Nat) :
    (phone.step (.startActivity place)).Orderly waiting := by
  rw [step]
  cases held : phone.starting[place]? with
  | none => exact orderly
  | some request =>
      refine orderly.turned ?_ rfl rfl rfl rfl
      have turn := orderly.turn
      cases turn with
      | launching desk launch =>
          obtain ⟨rfl, rfl, rfl, dialogs, main⟩ := desk_eq.mp desk
          exact .launching (desk_eq.mpr ⟨rfl, rfl, rfl, dialogs, main⟩) (launch.send held)
      | asking dialog desk one =>
          rw [(desk_eq.mp desk).2.1] at held
          cases held
      | answering dialog button stage desk early one =>
          rw [(desk_eq.mp desk).2.1] at held
          cases held
      | clearing dialog button desk done none =>
          rw [(desk_eq.mp desk).2.1] at held
          cases held
      | finishing dialog button desk done launch =>
          obtain ⟨rfl, rfl, rfl, dialogs, main⟩ := desk_eq.mp desk
          exact .finishing dialog button (desk_eq.mpr ⟨rfl, rfl, rfl, dialogs, main⟩) done
            (launch.send held)

/-- The activity reads the request that its intent is for. -/
theorem Orderly.create {phone : Phone} {waiting : List Nat} (orderly : phone.Orderly waiting) :
    (phone.step .create).Orderly waiting := by
  rw [step]
  split_ifs with idle
  · exact orderly
  · rw [not_or] at idle
    obtain ⟨arrived, free⟩ := idle
    have turn := orderly.turn
    cases turn with
    | launching desk launch =>
        cases launch with
        | idle => exact absurd (desk_eq.mp desk).2.2.1 arrived
        | starting request => exact absurd (desk_eq.mp desk).2.2.1 arrived
        | sent request =>
            obtain ⟨pending, starting, intents, dialogs, main⟩ := desk_eq.mp desk
            simp only [onCreate, pending]
            refine orderly.turned (.asking ⟨message request, request⟩ ?_ rfl) rfl rfl rfl rfl
            rw [desk_eq]
            exact ⟨rfl, starting, congrArg (· - 1) intents,
              congrArg (· ++ [⟨message request, request⟩]) dialogs, main⟩
    | asking dialog desk one => exact absurd (desk_eq.mp desk).2.2.1 arrived
    | answering dialog button stage desk early one =>
        exact absurd (desk_eq.mp desk).2.2.1 arrived
    | clearing dialog button desk done none => exact absurd (desk_eq.mp desk).2.2.1 arrived
    | finishing dialog button desk done launch =>
        rw [(desk_eq.mp desk).2.2.2.2] at free
        exact absurd rfl free

/-- No intent is lost at an activity that is still there. -/
theorem Orderly.reuse {phone : Phone} {waiting : List Nat} (orderly : phone.Orderly waiting)
    (calm : phone.Unhurried .reuse) : (phone.step .reuse).Orderly waiting := by
  rw [step, if_pos]
  · exact orderly
  · exact calm.imp_right fun away => ⟨by rw [away.1]; rfl, by rw [away.2]; rfl⟩

/-- The tapped dialog displays the request in the slot. -/
theorem Orderly.tap {phone : Phone} {waiting : List Nat} (orderly : phone.Orderly waiting)
    (place : Nat) (button : Button) : (phone.step (.tap place button)).Orderly waiting := by
  rw [step]
  split
  · rename_i dialog free held
    refine orderly.turned ?_ rfl rfl rfl rfl
    have turn := orderly.turn
    cases turn with
    | asking only desk one =>
        obtain ⟨pending, starting, intents, dialogs, main⟩ := desk_eq.mp desk
        rw [dialogs] at held
        cases place with
        | zero =>
            obtain rfl := Option.some.inj held
            refine .answering only button .read ?_ (.inl rfl) one
            exact desk_eq.mpr
              ⟨pending, starting, intents, congrArg (List.eraseIdx · 0) dialogs, rfl⟩
        | succ later => cases held
    | launching desk launch =>
        rw [(desk_eq.mp desk).2.2.2.1] at held
        cases held
    | answering other button stage desk early one =>
        rw [(desk_eq.mp desk).2.2.2.1] at held
        cases held
    | clearing other button desk done none =>
        rw [(desk_eq.mp desk).2.2.2.1] at held
        cases held
    | finishing other button desk done launch =>
        rw [(desk_eq.mp desk).2.2.2.1] at held
        cases held
  · exact orderly

theorem Orderly.complete {phone : Phone} {waiting : List Nat} (orderly : phone.Orderly waiting)
    (place : Nat) (outcome : Outcome) :
    (phone.step (.complete place outcome)).Orderly waiting := by
  rw [step]
  cases held : phone.running[place]? with
  | none => exact orderly
  | some request =>
      have taken := count_taken held
      simp only [Phone.complete]
      split
      all_goals
        refine orderly.moved (orderly.faithful.concat trivial)
          (orderly.turn.same rfl (List.subset_append_left _ _)) rfl ?_
        intro ticket
        simp only [sendResult, note, places, settled_result, List.count_append, taken,
          List.count_cons, List.count_nil]
        omega

/-- The tap acts on the request in the slot, which its dialog displayed. -/
theorem Orderly.act {phone : Phone} {dialog : Dialog} {button : Button}
    (orderly : phone.Orderly [dialog.shown.ticket])
    (desk : phone.desk = (some dialog.shown, [], 0, [], some ⟨dialog, button, .act dialog.shown⟩)) :
    (phone.advance ⟨dialog, button, .act dialog.shown⟩).Orderly [] := by
  obtain ⟨pending, starting, intents, dialogs, -⟩ := desk_eq.mp desk
  simp only [advance, Phone.act]
  split_ifs with allowed
  · refine orderly.moved (orderly.faithful.concat ?_) (.clearing dialog button ?_ ?_ rfl) rfl ?_
    · intro shown held
      rw [Option.mem_some_iff.mp held]
    · exact desk_eq.mpr ⟨pending, starting, intents, dialogs, rfl⟩
    · intro _
      exact List.mem_append_right _ (List.mem_singleton_self _)
    · intro ticket
      simp only [dispatch, note, places, settled_dispatched, List.map_append, List.map_cons,
        List.map_nil, List.count_append, List.count_cons, List.count_nil]
      omega
  · refine orderly.moved (orderly.faithful.concat trivial) (.clearing dialog button ?_ ?_ rfl) rfl ?_
    · exact desk_eq.mpr ⟨pending, starting, intents, dialogs, rfl⟩
    · exact fun granted => absurd granted allowed
    · intro ticket
      simp only [sendResult, note, places, settled_result, List.count_append, List.count_cons,
        List.count_nil]
      omega

/-- A happening that is no result leaves every ticket in its place. -/
theorem Orderly.noted {phone next : Phone} {waiting : List Nat} (orderly : phone.Orderly waiting)
    {happening : Happening} (fitting : Fitting phone.history happening)
    (turn : next.Turn waiting) (history : next.history = phone.history ++ [happening])
    (quiet : settled [happening] = []) (arrived : next.arrived = phone.arrived)
    (handling : next.handling = phone.handling) (running : next.running = phone.running) :
    next.Orderly waiting := by
  apply orderly.moved (history ▸ orderly.faithful.concat fitting) turn arrived
  intro ticket
  rw [places, places, history, handling, running, settled_append, quiet, List.append_nil]

/-- Each step of an answer keeps to the request that its dialog displayed. -/
theorem Orderly.answer {phone : Phone} {waiting : List Nat} (orderly : phone.Orderly waiting) :
    ∃ later, (phone.step .answer).Orderly later := by
  have turn := orderly.turn
  cases turn with
  | launching desk launch =>
      simp only [step, (desk_eq.mp desk).2.2.2.2]
      exact ⟨waiting, orderly⟩
  | asking dialog desk one =>
      simp only [step, (desk_eq.mp desk).2.2.2.2]
      exact ⟨waiting, orderly⟩
  | answering dialog button stage desk early one =>
      obtain ⟨pending, starting, intents, dialogs, main⟩ := desk_eq.mp desk
      obtain rfl := one
      simp only [step, main]
      rcases early with rfl | rfl | rfl
      · refine ⟨[dialog.shown.ticket], orderly.turned ?_ rfl rfl rfl rfl⟩
        refine .answering dialog button (.respond dialog.shown) ?_ (.inr (.inl rfl)) rfl
        simp only [advance, pending]
        exact desk_eq.mpr ⟨rfl, starting, intents, dialogs, rfl⟩
      · refine ⟨[dialog.shown.ticket], orderly.noted ?_ ?_ rfl rfl rfl rfl rfl⟩
        · rfl
        · exact .answering dialog button (.act dialog.shown)
            (desk_eq.mpr ⟨pending, starting, intents, dialogs, rfl⟩) (.inr (.inr rfl)) rfl
      · exact ⟨[], orderly.act desk⟩
  | clearing dialog button desk done none =>
      obtain ⟨pending, starting, intents, dialogs, main⟩ := desk_eq.mp desk
      obtain rfl := none
      simp only [step, main]
      refine ⟨[], orderly.turned ?_ rfl rfl rfl rfl⟩
      exact .finishing dialog button (desk_eq.mpr ⟨rfl, starting, intents, dialogs, rfl⟩) done .idle
  | finishing dialog button desk done launch =>
      obtain ⟨rfl, rfl, rfl, dialogs, main⟩ := desk_eq.mp desk
      simp only [step, main]
      refine ⟨waiting, orderly.noted ?_ ?_ rfl rfl rfl rfl rfl⟩
      · exact done
      · exact .launching (desk_eq.mpr ⟨rfl, rfl, rfl, dialogs, rfl⟩) launch

/-- Each event keeps the order while requests do not hurry. -/
theorem Orderly.step {phone : Phone} {waiting : List Nat} (orderly : phone.Orderly waiting)
    (event : PhoneEvent) (calm : phone.Unhurried event) :
    ∃ later, (phone.step event).Orderly later := by
  cases event with
  | actionRequest ws frame => exact ⟨waiting, orderly.arrive ws frame⟩
  | scopeUpdate scopes => exact ⟨waiting, orderly.update scopes⟩
  | handle place => exact orderly.handle place calm
  | startActivity place => exact ⟨waiting, orderly.startActivity place⟩
  | create => exact ⟨waiting, orderly.create⟩
  | reuse => exact ⟨waiting, orderly.reuse calm⟩
  | tap place button => exact ⟨waiting, orderly.tap place button⟩
  | answer => exact orderly.answer
  | complete place outcome => exact ⟨waiting, orderly.complete place outcome⟩

theorem Orderly.start (capabilities : Option (List String)) :
    (Phone.start capabilities).Orderly [] := by
  refine ⟨⟨nofun, nofun, nofun⟩, .launching rfl .idle, .nothing⟩

/-- While requests do not hurry, every tap acts on the request that its dialog displayed, and every
request is on its way or got exactly one result. -/
theorem bound_of_unhurried (capabilities : Option (List String)) (events : List PhoneEvent)
    (calm : Throughout
      (fun before event => (run step (Phone.start capabilities) before).Unhurried event) events) :
    (run step (Phone.start capabilities) events).Bound := by
  have orderly := invariant step (Phone.start capabilities)
    (fun before event => (run step (Phone.start capabilities) before).Unhurried event)
    (fun _ phone => ∃ waiting, phone.Orderly waiting) ⟨[], Orderly.start capabilities⟩
    (fun before event held now => held.elim fun waiting orderly => orderly.step event now)
    events calm
  exact orderly.elim fun waiting held => held.bound

/-- A request of the server. -/
def ask (id capability : String) : ActionRequest :=
  ⟨protocolVersion, id, capability, [], none, false⟩

/-- One request is handled, shown and allowed before the next one comes to the slot. -/
def inTurn : List PhoneEvent :=
  [.actionRequest 0 (ask "a" "mobile.clipboard.write"), .handle 0, .startActivity 0, .create,
    .actionRequest 0 (ask "b" "mobile.sms.send"), .tap 0 .allow, .answer, .answer, .answer, .answer,
    .answer, .handle 0]

theorem bound_in_turn :
    (run step (Phone.start (some ["mobile.clipboard.write", "mobile.sms.send"])) inTurn).Bound := by
  apply bound_of_unhurried
  refine .cons trivial (.cons ?_ (.cons trivial (.cons trivial (.cons trivial (.cons trivial
    (.cons trivial (.cons trivial (.cons trivial (.cons trivial (.cons trivial
    (.cons ?_ (.nil _))))))))))))
  · intro request _ _ _
    rfl
  · intro request _ _ _
    rfl

/-- The second request comes to the slot while the dialog of the first one is on screen. -/
def hurried : List PhoneEvent :=
  [.actionRequest 0 (ask "a" "mobile.clipboard.write"), .handle 0, .startActivity 0, .create,
    .actionRequest 0 (ask "b" "mobile.sms.send"), .handle 0, .tap 0 .allow, .answer, .answer, .answer]

theorem hurried_unbound :
    ¬∀ (capabilities : Option (List String)) (events : List PhoneEvent),
      (run step (Phone.start capabilities) events).Bound := by
  intro all
  have bound := all (some ["mobile.clipboard.write", "mobile.sms.send"]) hurried
  have wrong := bound.faithful.dispatches ⟨1, 0, ask "b" "mobile.sms.send"⟩
    ⟨message ⟨0, 0, ask "a" "mobile.clipboard.write"⟩, ⟨0, 0, ask "a" "mobile.clipboard.write"⟩⟩
    (.tail _ (.head _))
  have other := congrArg Pending.ticket wrong
  cases other

end Phone

end Android

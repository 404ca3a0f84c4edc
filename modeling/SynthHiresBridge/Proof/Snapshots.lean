import SynthHiresBridge.Data.Numbered
import SynthHiresBridge.Proof.AxDepth

namespace Daemon

open NumberedLines

namespace OsAx

def OsNode.interesting (host : Host) (node : OsNode) : Bool :=
  roleIsInteresting host node.role node.name

def osLine (ref : Nat) (node : OsNode) : String := renderNodeLine ref node 160

/-- The lines, the refs and the flag of a rendering. The flag looks at the nodes before the last. -/
theorem renderFrom_numbered (host : Host) (limit count : Nat) (nodes : List OsNode) :
    (renderFrom host limit count nodes).1 =
        lines osLine count ((nodes.filter (·.interesting host)).take (limit - count)) ∧
      (renderFrom host limit count nodes).2.1 =
        ((nodes.filter (·.interesting host)).take (limit - count)).map OsNode.identity ∧
      ((renderFrom host limit count nodes).2.2 = true ↔
        nodes ≠ [] ∧ limit - count ≤ (nodes.dropLast.filter (·.interesting host)).length) := by
  induction nodes generalizing count with
  | nil => simp [renderFrom, lines]
  | cons node rest ih =>
      rw [renderFrom]
      by_cases full : count ≥ limit
      · have none : limit - count = 0 := Nat.sub_eq_zero_of_le full
        simp [full, none, lines]
      · rw [if_neg full]
        by_cases wanted : roleIsInteresting host node.role node.name = true
        · obtain ⟨text, refs, flag⟩ := ih (count + 1)
          have own : node.interesting host = true := wanted
          have room : limit - count = limit - (count + 1) + 1 := by omega
          rw [if_pos wanted, List.filter_cons_of_pos own, room, List.take_succ_cons]
          refine ⟨?_, ?_, ?_⟩
          · rw [lines, ← text]
            rfl
          · rw [List.map_cons, ← refs]
          · cases rest with
            | nil => simp [renderFrom]
            | cons next more =>
                refine flag.trans ?_
                rw [List.dropLast_cons_cons, List.filter_cons_of_pos own, List.length_cons]
                simp
        · obtain ⟨text, refs, flag⟩ := ih count
          have own : ¬node.interesting host = true := wanted
          rw [if_neg wanted, List.filter_cons_of_neg own]
          refine ⟨text, refs, flag.trans ?_⟩
          cases rest with
          | nil =>
              have room : ¬limit - count = 0 := by omega
              simp [room]
          | cons next more =>
              rw [List.dropLast_cons_cons, List.filter_cons_of_neg own]
              simp

/-- The nodes that are rendered from, and what they are to show. -/
def window (host : Host) (nodes : List OsNode) (focus : Option String) : List OsNode :=
  nodes.drop (windowStart host nodes focus)

def Honest (host : Host) (nodes : List OsNode) (limit : Nat) (focus : Option String) : Prop :=
  NumberedLines.Honest osLine (fun node => some node.identity)
    ((window host nodes focus).filter (·.interesting host))
    (renderTree host nodes limit focus).text
    (OsRefs.mk (renderTree host nodes limit focus).refs).get
    (renderTree host nodes limit focus).truncated

/-- The flag is honest unless the last interesting node fills the limit and others follow it. -/
theorem flag_iff (host : Host) (limit : Nat) (nodes : List OsNode) :
    ((nodes ≠ [] ∧ limit ≤ (nodes.dropLast.filter (·.interesting host)).length) ↔
      limit < (nodes.filter (·.interesting host)).length) ↔
    ∀ last, nodes.getLast? = some last → last.interesting host = true ∨
      (nodes.filter (·.interesting host)).length ≠ limit := by
  rcases List.eq_nil_or_concat nodes with rfl | ⟨front, last, rfl⟩
  · simp
  · rw [List.concat_eq_append, List.dropLast_concat, List.getLast?_concat, List.filter_append,
      List.length_append]
    cases own : last.interesting host with
    | true =>
        simp [own]
    | false =>
        simp [own]
        omega

theorem honest_iff (host : Host) (nodes : List OsNode) (limit : Nat) (focus : Option String) :
    Honest host nodes limit focus ↔
      ∀ last, (window host nodes focus).getLast? = some last → last.interesting host = true ∨
        ((window host nodes focus).filter (·.interesting host)).length ≠ limit := by
  obtain ⟨text, refs, flag⟩ := renderFrom_numbered host limit 0 (window host nodes focus)
  rw [Nat.sub_zero] at text refs flag
  rw [← flag_iff]
  refine (NumberedLines.honest_iff (List.take_prefix limit _) text ?_).trans ?_
  · intro ref
    show (if 0 < ref then _ else _) = _
    rw [renderTree, ← window, refs]
    by_cases positive : 0 < ref
    · rw [if_pos positive, if_pos positive, List.getElem?_map]
      exact Option.map_eq_bind
    · rw [if_neg positive, if_neg positive]
  · rw [length_take_lt_iff, renderTree, ← window, flag]

end OsAx

open Climb

/-- The depth of the climb, where its chain ends. -/
noncomputable def ParentMaps.depth (maps : ParentMaps) (id : String) : Nat :=
  open Classical in if ends : ∃ depth, Depth maps.climb id depth then ends.choose else 0

theorem ParentMaps.depth_eq {maps : ParentMaps} {id : String} {depth : Nat}
    (measured : Depth maps.climb id depth) : maps.depth id = depth := by
  have ends : ∃ depth, Depth maps.climb id depth := ⟨depth, measured⟩
  rw [ParentMaps.depth, dif_pos ends]
  exact ends.choose_spec.unique measured

namespace AxNode

/-- The nodes that are to be shown. -/
def wanted (node : AxNode) : Bool := !node.ignored && node.interesting

/-- An element of the page is known by a positive number. -/
def identity (node : AxNode) : Option Int := node.backendDomNodeId.filter (0 < ·)

noncomputable def lineIn (maps : ParentMaps) (ref : Nat) (node : AxNode) : String :=
  node.line ref (maps.depth node.nodeId)

/-- The chain of parents of a node ends. -/
def Ends (maps : ParentMaps) (node : AxNode) : Prop := ∃ depth, Depth maps.climb node.nodeId depth

end AxNode

/-- A node that is not wanted leaves the rendering as it is. -/
theorem renderAx_skip {fuel count limit : Nat} {maps : ParentMaps} {cache : Table String Nat}
    {refs : Table Int Int} {node : AxNode} {rest : List AxNode} (room : ¬count ≥ limit)
    (other : node.wanted = false) :
    renderAx fuel maps limit count cache refs (node :: rest) =
      renderAx fuel maps limit count cache refs rest := by
  rw [renderAx, if_neg room]
  rw [AxNode.wanted, Bool.and_eq_false_iff] at other
  by_cases ignored : node.ignored = true
  · rw [if_pos ignored]
  · have dull : node.interesting = false := other.resolve_left (by simpa using ignored)
    rw [if_neg ignored, dull]
    rfl

/-- The refs after a wanted node. -/
def keepRef (count : Nat) (node : AxNode) (refs : Table Int Int) : Table Int Int :=
  if 0 < node.backendDomNodeId.getD 0 then
    refs.insert (count + 1) (node.backendDomNodeId.getD 0) else refs

theorem renderAx_wanted {fuel count limit : Nat} {maps : ParentMaps} {cache : Table String Nat}
    {refs : Table Int Int} {node : AxNode} {rest : List AxNode} (room : ¬count ≥ limit)
    (own : node.wanted = true) :
    renderAx fuel maps limit count cache refs (node :: rest) =
      (axDepth fuel maps cache node.nodeId).bind fun climbed =>
        (renderAx fuel maps limit (count + 1) climbed.2 (keepRef count node refs) rest).map
          fun later => (node.line (count + 1) climbed.1 ++ "\n" ++ later.1, later.2) := by
  rw [AxNode.wanted, Bool.and_eq_true] at own
  have shown : ¬node.ignored = true := by simpa using own.1
  rw [renderAx, if_neg room, if_neg shown, own.2]
  rfl

theorem lookup_keepRef (count : Nat) (node : AxNode) (refs : Table Int Int) (ref : Int) :
    (keepRef count node refs).lookup ref =
      if ref = count + 1 then node.identity.or (refs.lookup ref) else refs.lookup ref := by
  unfold keepRef AxNode.identity
  cases node.backendDomNodeId with
  | none => simp
  | some backend =>
      by_cases positive : 0 < backend
      · have element : (some backend).filter (fun number => decide (0 < number)) = some backend := by
          simp [positive]
        rw [Option.getD_some, if_pos positive, element, Option.some_or]
        by_cases own : ref = count + 1
        · rw [if_pos own, own, AList.lookup_insert]
        · rw [if_neg own, AList.lookup_insert_ne own]
      · have element : (some backend).filter (fun number => decide (0 < number)) = none := by
          simpa using positive
        rw [Option.getD_some, if_neg positive, element, Option.none_or, ite_self]

/-- A rendering that shows nothing more keeps the refs. -/
theorem lookup_nothing {count : Nat} {refs : Table Int Int}
    (fresh : ∀ ref : Int, count < ref → refs.lookup ref = none) (ref : Int) :
    refs.lookup ref = if count < ref then
      ([] : List AxNode)[(ref - 1 - count).toNat]?.bind AxNode.identity else refs.lookup ref := by
  by_cases later : count < ref
  · rw [if_pos later, fresh ref later]
    rfl
  · rw [if_neg later]

/-- A node that is shown takes the next ref. -/
theorem lookup_shown {count : Nat} {node : AxNode} {refs after : Table Int Int}
    {shown : List AxNode} (fresh : ∀ ref : Int, count < ref → refs.lookup ref = none)
    (later : ∀ ref : Int, after.lookup ref = if (count + 1 : Nat) < ref then
      shown[(ref - 1 - (count + 1 : Nat)).toNat]?.bind AxNode.identity
      else (keepRef count node refs).lookup ref) (ref : Int) :
    after.lookup ref = if count < ref then
      (node :: shown)[(ref - 1 - count).toNat]?.bind AxNode.identity else refs.lookup ref := by
  rw [later ref, lookup_keepRef]
  by_cases beyond : ((count + 1 : Nat) : Int) < ref
  · have place : (ref - 1 - count).toNat = (ref - 1 - (count + 1 : Nat)).toNat + 1 := by omega
    rw [if_pos beyond, if_pos (by omega), place, List.getElem?_cons_succ]
  · rw [if_neg beyond]
    by_cases own : ref = count + 1
    · have place : (ref - 1 - count).toNat = 0 := by omega
      rw [if_pos own, if_pos (by omega), place, fresh ref (by omega), Option.or_none]
      rfl
    · rw [if_neg own, if_neg (by omega)]

/-- What a finished rendering has written. -/
theorem renderAx_shows {fuel limit count : Nat} {maps : ParentMaps} {cache : Table String Nat}
    {refs after : Table Int Int} {nodes : List AxNode} {text : String}
    (correct : maps.Correct cache) (fresh : ∀ ref : Int, count < ref → refs.lookup ref = none)
    (ran : renderAx fuel maps limit count cache refs nodes = some (text, after)) :
    (∀ node ∈ (nodes.filter AxNode.wanted).take (limit - count), node.Ends maps) ∧
      text = lines (AxNode.lineIn maps) count ((nodes.filter AxNode.wanted).take (limit - count)) ∧
      ∀ ref : Int, after.lookup ref =
        if count < ref then
          ((nodes.filter AxNode.wanted).take (limit - count))[(ref - 1 - count).toNat]?.bind
            AxNode.identity
        else refs.lookup ref := by
  induction nodes generalizing count cache refs text with
  | nil =>
      rw [renderAx] at ran
      cases ran
      rw [List.filter_nil, List.take_nil]
      exact ⟨fun node member => absurd member List.not_mem_nil, rfl, lookup_nothing fresh⟩
  | cons node rest ih =>
      by_cases full : count ≥ limit
      · rw [renderAx, if_pos full] at ran
        cases ran
        rw [Nat.sub_eq_zero_of_le full, List.take_zero]
        exact ⟨fun node member => absurd member List.not_mem_nil, rfl, lookup_nothing fresh⟩
      · cases own : node.wanted with
        | false =>
            rw [renderAx_skip full own] at ran
            rw [List.filter_cons_of_neg (by rw [own]; decide)]
            exact ih correct fresh ran
        | true =>
            rw [renderAx_wanted full own] at ran
            obtain ⟨climbed, climbs, ran⟩ := Option.bind_eq_some_iff.mp ran
            obtain ⟨later, finished, same⟩ := Option.map_eq_some_iff.mp ran
            cases same
            obtain ⟨measured, kept⟩ := ParentMaps.axDepth_correct correct climbs
            have unused : ∀ ref : Int, (count + 1 : Nat) < ref →
                (keepRef count node refs).lookup ref = none := by
              intro ref beyond
              rw [lookup_keepRef, if_neg (by omega), fresh ref (by omega)]
            obtain ⟨ends, text, found⟩ := ih kept unused finished
            have room : limit - count = limit - (count + 1) + 1 := by omega
            rw [List.filter_cons_of_pos own, room, List.take_succ_cons]
            refine ⟨List.forall_mem_cons.mpr ⟨⟨_, measured⟩, ends⟩, ?_, lookup_shown fresh found⟩
            rw [lines, AxNode.lineIn, ParentMaps.depth_eq measured, ← text]

/-- A rendering finishes when the chains of the nodes that it shows end. -/
theorem renderAx_finishes {fuel limit count : Nat} {maps : ParentMaps} {cache : Table String Nat}
    {nodes : List AxNode} (refs : Table Int Int) (correct : maps.Correct cache)
    (ends : ∀ node ∈ (nodes.filter AxNode.wanted).take (limit - count),
      node.Ends maps ∧ maps.depth node.nodeId < fuel) :
    ∃ rendered, renderAx fuel maps limit count cache refs nodes = some rendered := by
  induction nodes generalizing count cache refs with
  | nil => exact ⟨("", refs), by rw [renderAx]⟩
  | cons node rest ih =>
      by_cases full : count ≥ limit
      · exact ⟨("", refs), by rw [renderAx, if_pos full]⟩
      · cases own : node.wanted with
        | false =>
            rw [renderAx_skip full own]
            rw [List.filter_cons_of_neg (by rw [own]; decide)] at ends
            exact ih refs correct ends
        | true =>
            have room : limit - count = limit - (count + 1) + 1 := by omega
            rw [List.filter_cons_of_pos own, room, List.take_succ_cons, List.forall_mem_cons] at ends
            obtain ⟨⟨⟨depth, measured⟩, enough⟩, later⟩ := ends
            rw [ParentMaps.depth_eq measured] at enough
            obtain ⟨after, climbs⟩ := ParentMaps.axDepth_returns correct measured enough
            obtain ⟨rendered, ran⟩ := ih (keepRef count node refs)
              (ParentMaps.axDepth_correct correct climbs).2 later
            rw [renderAx_wanted full own, climbs, Option.bind_some, ran]
            exact ⟨_, rfl⟩

namespace BrowserStore

variable (host : OsAx.Host) (nodes : List AxNode) (limit : Nat) (focus : Option String)
  (budget : Option Nat)

/-- The nodes behind the budget of the window. -/
def behind : List AxNode :=
  ((focusHit host nodes focus).map fun hit =>
    (nodes.drop (hit - 5)).drop (focusBudget budget)).getD []

/-- What a snapshot is to show from the start of the window on. -/
def wanted : List AxNode := (nodes.drop (focusStart host nodes focus)).filter AxNode.wanted

/-- The nodes that get a line. -/
def shown : List AxNode := ((focusWindow host nodes focus budget).filter AxNode.wanted).take limit

def maps : ParentMaps := axParentMaps (focusWindow host nodes focus budget)

/-- A snapshot is returned, its lines and refs name the same nodes, and its flag is honest. -/
def Honest (url title : Option String) (observed : Observed) : Prop :=
  ∃ fuel result after,
    snapshotInner fuel host ⟨.ok nodes, url, title⟩ observed limit focus budget =
        some (.ok result, after) ∧
      NumberedLines.Honest (AxNode.lineIn (maps host nodes focus budget)) AxNode.identity
        (wanted host nodes focus) result.text (fun ref => after.session.refs.lookup ref)
        result.truncated

theorem window_append_behind : focusWindow host nodes focus budget ++ behind host nodes focus budget =
    nodes.drop (focusStart host nodes focus) := by
  rw [focusWindow, behind, focusStart]
  cases focusHit host nodes focus with
  | none => simp
  | some hit => exact List.take_append_drop _ _

theorem shown_front : shown host nodes limit focus budget <+: wanted host nodes focus := by
  rw [wanted, ← window_append_behind host nodes focus budget, List.filter_append]
  exact (List.take_prefix limit _).trans (List.prefix_append _ _)

theorem shown_short_iff :
    (shown host nodes limit focus budget).length < (wanted host nodes focus).length ↔
      limit < (wanted host nodes focus).length ∨
        ∃ node ∈ behind host nodes focus budget, node.wanted = true := by
  have some : (∃ node ∈ behind host nodes focus budget, node.wanted = true) ↔
      0 < ((behind host nodes focus budget).filter AxNode.wanted).length := by
    rw [List.length_pos_iff_exists_mem]
    simp only [List.mem_filter]
  rw [some, shown, wanted, ← window_append_behind host nodes focus budget, List.filter_append,
    List.length_append, List.length_take]
  omega

theorem honest_iff (url title : Option String) (observed : Observed) :
    Honest host nodes limit focus budget url title observed ↔
      (∀ node ∈ shown host nodes limit focus budget, node.Ends (maps host nodes focus budget)) ∧
        (limit < nodes.length ↔ limit < (wanted host nodes focus).length ∨
          ∃ node ∈ behind host nodes focus budget, node.wanted = true) := by
  have fresh : ∀ ref : Int, ((0 : Nat) : Int) < ref → (∅ : Table Int Int).lookup ref = none :=
    fun ref _ => AList.lookup_empty ref
  have spells : ∀ fuel text refs,
      renderAx fuel (maps host nodes focus budget) limit 0 ∅ ∅ (focusWindow host nodes focus budget) =
        some (text, refs) →
      (∀ node ∈ shown host nodes limit focus budget, node.Ends (maps host nodes focus budget)) ∧
        (NumberedLines.Honest (AxNode.lineIn (maps host nodes focus budget)) AxNode.identity
          (wanted host nodes focus) text (fun ref => refs.lookup ref) (decide (limit < nodes.length)) ↔
        (limit < nodes.length ↔ limit < (wanted host nodes focus).length ∨
          ∃ node ∈ behind host nodes focus budget, node.wanted = true)) := by
    intro fuel text refs ran
    obtain ⟨ends, text, found⟩ := renderAx_shows ParentMaps.Correct.empty fresh ran
    rw [Nat.sub_zero] at ends text found
    refine ⟨ends, (NumberedLines.honest_iff (shown_front host nodes limit focus budget) text ?_).trans ?_⟩
    · intro ref
      rw [found ref, AList.lookup_empty]
      simp only [Nat.cast_zero, Int.sub_zero]
      rfl
    · rw [decide_eq_true_iff, shown_short_iff]
  constructor
  · rintro ⟨fuel, result, after, took, honest⟩
    obtain ⟨rendered, ran, same⟩ := Option.map_eq_some_iff.mp took
    cases same
    obtain ⟨ends, flag⟩ := spells fuel rendered.1 rendered.2 ran
    exact ⟨ends, flag.mp honest⟩
  · rintro ⟨ends, flag⟩
    obtain ⟨fuel, enough⟩ := ParentMaps.exists_above
      ((shown host nodes limit focus budget).map AxNode.nodeId) (maps host nodes focus budget).depth
    have ready : ∀ node ∈ ((focusWindow host nodes focus budget).filter AxNode.wanted).take (limit - 0),
        node.Ends (maps host nodes focus budget) ∧
          (maps host nodes focus budget).depth node.nodeId < fuel :=
      fun node member => ⟨ends node member, enough _ (List.mem_map_of_mem member)⟩
    obtain ⟨rendered, ran⟩ := renderAx_finishes ∅ ParentMaps.Correct.empty ready
    refine ⟨fuel, _, _, Option.map_eq_some_iff.mpr ⟨rendered, ran, rfl⟩, ?_⟩
    exact (spells fuel rendered.1 rendered.2 ran).2.mpr flag

end BrowserStore

/-- Small letters are enough for names of ASCII. -/
def asciiHost : OsAx.Host := ⟨fun text => String.ofList (text.toList.map Char.toLower)⟩

def plainOsNode (role name identity : String) : OsAx.OsNode :=
  ⟨role, name, ⟨true, false, false, none, false⟩, [], identity⟩

def plainAxNode (id role : String) : AxNode where
  nodeId := id
  ignored := false
  role := some ⟨some (.string role)⟩
  name := none
  value := none
  properties := none
  parentId := none
  childIds := none
  backendDomNodeId := some 7

end Daemon

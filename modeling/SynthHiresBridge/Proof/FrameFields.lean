import SynthHiresBridge.Android.Protocol
import SynthHiresBridge.Data.Reading
import Mathlib.Algebra.Group.Int.Defs
import SynthHiresBridge.Daemon.BridgeFrame

namespace Wire

open Json

/-- The same texts in a list of scopes. -/
def SameScopes (android : Android.BridgeScopes) (daemon : Daemon.Scopes) : Prop :=
  android.capabilities = daemon.capabilities ∧ android.alwaysAllowPaths = daemon.alwaysAllowPaths

def SameError (android : Android.ActionError) (daemon : Daemon.ActionError) : Prop :=
  android.code = daemon.code ∧ android.message = daemon.message

/-- Both sides have the property, or both are without it. -/
def SameOption {α β : Type} (Equal : α → β → Prop) : Option α → Option β → Prop
  | none, none => True
  | some android, some daemon => Equal android daemon
  | _, _ => False

/-- The keys of an element have no order. -/
def SameElement (android daemon : Value) : Prop :=
  android.sorted = daemon.sorted

def SameClose (android : Int32) (daemon : UInt16) : Prop :=
  android.toInt = daemon.toNat

/-- The version of a frame is written, and the daemon can hold it. -/
def Versioned (version : Int32) : Prop :=
  version ≠ Android.protocolVersion ∧ 0 ≤ version.toInt

theorem asU64_eq (value : Value) : value.asU64 = value.asBelow (2 ^ 64) := by
  cases value with
  | number number => cases number <;> rfl
  | _ => rfl

@[simp] theorem reads_asU64 (value : Int64) :
    (Reads (Android.int64 value).asU64 fun held => value.toInt = held) ↔ 0 ≤ value.toInt := by
  have fits := value.toInt_lt
  rw [asU64_eq]
  exact (reads_asBelow (2 ^ 64) value.toInt).trans (and_iff_left (by omega))

@[simp] theorem reads_asU32 (value : Int32) :
    (Reads (Daemon.asU32 (Android.int32 value)) fun held => value.toInt = held) ↔
      0 ≤ value.toInt := by
  have fits := value.toInt_lt
  exact (reads_asBelow (2 ^ 32) value.toInt).trans (and_iff_left (by omega))

@[simp] theorem reads_unlessDefault {α : Type} [DecidableEq α] {default value : α}
    {write : α → Value} {Meant : Value → Prop} :
    Reads (Android.unlessDefault default write value) Meant ↔
      value ≠ default ∧ Meant (write value) := by
  rw [Android.unlessDefault]
  split
  · rename_i same
    exact iff_of_false not_reads_none fun both => both.1 same
  · rename_i different
    exact reads_some.trans (and_iff_right different).symm

/-- A duration of zero is left out, and the daemon has no default for it. -/
theorem sent_durationMs (value : Int64) : value ≠ 0 ∧ 0 ≤ value.toInt ↔ 0 < value.toInt := by
  have zero : value ≠ 0 ↔ value.toInt ≠ 0 := by
    rw [not_iff_not, ← Int64.toInt_inj]
    rfl
  rw [zero]
  omega

@[simp] theorem sameElement_sorted (element : Value) : SameElement element element.sorted :=
  (Value.sorted_sorted element).symm

@[simp] theorem reads_deviceKind (kind : String) :
    (Reads (Daemon.DeviceKind.ofText kind) fun held => kind = held.text) ↔
      kind = "desktop" ∨ kind = "mobile" := by
  constructor
  · rintro ⟨held, -, rfl⟩
    cases held <;> decide
  · rintro (rfl | rfl)
    · exact ⟨.desktop, rfl, rfl⟩
    · exact ⟨.mobile, rfl, rfl⟩

/-- A phone's own kind is left out, and the daemon has no default for it. -/
theorem sent_deviceKind (kind : String) :
    kind ≠ "mobile" ∧ (kind = "desktop" ∨ kind = "mobile") ↔ kind = "desktop" := by
  constructor
  · rintro ⟨different, either⟩
    exact either.resolve_right different
  · rintro rfl
    exact ⟨by decide, .inl rfl⟩

@[simp] theorem reads_channel (channel : String) :
    (Reads (Daemon.StreamChannel.ofText channel) fun held => channel = held.text) ↔
      channel = "stdout" ∨ channel = "stderr" ∨ channel = "log" := by
  constructor
  · rintro ⟨held, -, rfl⟩
    cases held <;> decide
  · rintro (rfl | rfl | rfl)
    · exact ⟨.stdout, rfl, rfl⟩
    · exact ⟨.stderr, rfl, rfl⟩
    · exact ⟨.log, rfl, rfl⟩

@[simp] theorem text_default (default text : String) :
    Value.defaulted default Value.asStr (Android.unlessDefault default Value.string text) =
      some text := by
  rw [Android.unlessDefault]
  split
  · rename_i same
    rw [same]
    rfl
  · rfl

/-- The system of a phone is left out, and the daemon takes it for an empty text. -/
@[simp] theorem reads_os (os : String) :
    (Reads (Value.defaulted "" Value.asStr (Android.unlessDefault "android" Value.string os))
      fun held => os = held) ↔ os ≠ "android" := by
  rw [Android.unlessDefault]
  split
  · rename_i same
    subst same
    have absent : Value.defaulted "" Value.asStr none = some "" := rfl
    rw [absent, reads_some]
    decide
  · rename_i different
    have present : Value.defaulted "" Value.asStr (some (.string os)) = some os := rfl
    rw [present, reads_some]
    exact iff_of_true rfl different

@[simp] theorem bool_default (flag : Bool) :
    Value.defaulted false Value.asBool (Android.unlessDefault false Value.bool flag) =
      some flag := by
  cases flag <;> rfl

@[simp] theorem strings_default (texts : List String) :
    Value.defaulted [] (Value.listOf Value.asStr)
      (Android.unlessDefault [] Android.strings texts) = some texts := by
  rw [Android.unlessDefault]
  split
  · rename_i same
    rw [same]
    rfl
  · exact listOf_strings texts

@[simp] theorem optional_text (text : Option String) :
    Value.optional Value.asStr (text.map Value.string) = some text := by
  cases text <;> rfl

@[simp] theorem optional_ofOption (text : Option String) :
    Value.optional Value.asStr (some (Value.ofOption text)) = some text := by
  cases text <;> rfl

@[simp] theorem reads_asInt32 (value : Nat) :
    (Reads (Android.asInt32 (.ofNat value)) fun held => held.toInt = value) ↔ value < 2 ^ 31 := by
  rw [Android.asInt32, asInt_ofNat]
  split
  · rename_i inside
    have kept : (Int32.ofInt value).toInt = value :=
      Int32.toInt_ofInt_of_le (by omega) (by exact_mod_cast inside)
    rw [Option.map_some, reads_some, kept]
    exact iff_of_true rfl inside
  · rename_i outside
    exact iff_of_false not_reads_none outside

@[simp] theorem reads_asInt64 (value : Nat) :
    (Reads (Android.asInt64 (.ofNat value)) fun held => held.toInt = value) ↔ value < 2 ^ 63 := by
  rw [Android.asInt64, asInt_ofNat]
  split
  · rename_i inside
    have kept : (Int64.ofInt value).toInt = value :=
      Int64.toInt_ofInt_of_le (by omega) (by exact_mod_cast inside)
    rw [Option.map_some, reads_some, kept]
    exact iff_of_true rfl inside
  · rename_i outside
    exact iff_of_false not_reads_none outside

/-- The daemon has no element that is null. -/
@[simp] theorem reads_output (output : Option Value) :
    Reads (Value.optional (fun element => some element.sorted) output)
      (SameOption SameElement output) ↔ output ≠ some .null := by
  cases output with
  | none => exact iff_of_true ⟨none, rfl, trivial⟩ nofun
  | some element =>
      cases element with
      | null => exact iff_of_false (by rintro ⟨held, read, same⟩; cases read; exact same) (absurd rfl)
      | _ => exact iff_of_true ⟨_, rfl, (Value.sorted_sorted _).symm⟩ nofun

/-- The phone reads no element that is null. -/
@[simp] theorem reads_element (output : Option Value) :
    (Reads (Value.optional some output) fun held => SameOption SameElement held output) ↔
      output ≠ some .null := by
  cases output with
  | none => exact iff_of_true ⟨none, rfl, trivial⟩ nofun
  | some element =>
      cases element with
      | null => exact iff_of_false (by rintro ⟨held, read, same⟩; cases read; exact same) (absurd rfl)
      | _ => exact iff_of_true ⟨_, rfl, rfl⟩ nofun

@[simp] theorem reads_params (params : Value) :
    (Reads params.asObject fun held => SameElement (.object held) params) ↔
      params.isObject = true := by
  cases params with
  | object entries => exact iff_of_true ⟨entries, rfl, rfl⟩ rfl
  | _ => exact iff_of_false not_reads_none nofun

theorem optional_int32 {α : Type} (read : Value → Option α) (value : Int32) :
    Value.optional read (some (Android.int32 value)) = (read (Android.int32 value)).map some := by
  rw [Android.int32]
  cases value.toInt <;> rfl

/-- A close code of the phone is written with its sign and may not fit into 16 bits. -/
@[simp] theorem reads_close (close : Option Int32) :
    Reads (Value.optional Daemon.asU16 (close.map Android.int32)) (SameOption SameClose close) ↔
      ∀ code ∈ close, 0 ≤ code.toInt ∧ code.toInt < 2 ^ 16 := by
  cases close with
  | none => exact iff_of_true ⟨none, rfl, trivial⟩ nofun
  | some code =>
      rw [Option.map_some, optional_int32, Daemon.asU16, reads_map, reads_map, Android.int32,
        asBelow_ofInt]
      simp only [Option.mem_some_iff, forall_eq']
      split
      · rename_i inside
        have small : code.toInt.toNat < 2 ^ 16 := by omega
        have same : SameClose code (UInt16.ofNat code.toInt.toNat) := by
          rw [SameClose, UInt16.toNat_ofNat_of_lt' small, Int.toNat_of_nonneg inside.1]
        rw [reads_some]
        exact iff_of_true same inside
      · rename_i outside
        exact iff_of_false not_reads_none outside

/-- Every close code of the daemon fits into 32 bits. -/
@[simp] theorem reads_close_back (close : Option UInt16) :
    Reads (Value.optional Android.asInt32 (close.map fun close => .ofNat close.toNat))
      fun held => SameOption SameClose held close := by
  cases close with
  | none => exact ⟨none, rfl, trivial⟩
  | some code =>
      have below := code.toNat_lt
      obtain ⟨held, read, same⟩ := (reads_asInt32 code.toNat).mpr (by omega)
      refine ⟨some held, ?_, same⟩
      exact congrArg (Option.map some) read

section Records

variable {α : Type} {names : List String} {read : List (Option Value) → Option α}
  {fields : List (String × Option Value)} {Meant : α → Prop}

/-- The daemon reads a written record by its fields. -/
theorem reads_readFields (distinct : (fields.map Prod.fst).Nodup) :
    Reads (Daemon.readFields names read (.object (written fields))) Meant ↔
      Reads (read (names.map fun name => (fields.lookup name).join)) Meant := by
  rw [Daemon.readFields, fieldsOnce_written distinct, Option.bind_some]

theorem reads_readProperties (distinct : (fields.map Prod.fst).Nodup) :
    Reads (Android.readProperties names read (.object (written fields))) Meant ↔
      Reads (read (names.map fun name => (fields.lookup name).join)) Meant := by
  simp only [Android.readProperties, lookup_written distinct]

/-- The discriminator of a frame is none of its properties. -/
theorem reads_readTagged {tag : String} {held : Value} (distinct : (fields.map Prod.fst).Nodup)
    (untagged : tag ∉ names) :
    Reads (Android.readProperties names read (.object ((tag, held) :: written fields))) Meant ↔
      Reads (read (names.map fun name => (fields.lookup name).join)) Meant := by
  rw [Android.readProperties, properties_written distinct untagged]

end Records

@[simp] theorem reads_scopes (scopes : Android.BridgeScopes) :
    Reads (Daemon.Scopes.ofValue (.object (written scopes.properties))) (SameScopes scopes) := by
  rw [Daemon.Scopes.ofValue, reads_readFields (by simp [Android.BridgeScopes.properties])]
  simp [Android.BridgeScopes.properties, List.lookup_cons, SameScopes]

@[simp] theorem reads_scopes_back (scopes : Daemon.Scopes) :
    Reads (Android.BridgeScopes.ofValue (.object (written scopes.fields)))
      fun held => SameScopes held scopes := by
  rw [Android.BridgeScopes.ofValue, reads_readProperties (by simp [Daemon.Scopes.fields])]
  simp [Daemon.Scopes.fields, Daemon.textList, List.lookup_cons, SameScopes]

@[simp] theorem reads_error (error : Option Android.ActionError) :
    Reads (Value.optional Daemon.ActionError.ofValue
      (error.map fun error => .object (written error.properties))) (SameOption SameError error) := by
  cases error with
  | none => exact ⟨none, rfl, trivial⟩
  | some error =>
      rw [Option.map_some, optional_object, reads_map, Daemon.ActionError.ofValue,
        reads_readFields (by simp [Android.ActionError.properties])]
      simp [Android.ActionError.properties, List.lookup_cons, SameOption, SameError]

@[simp] theorem reads_error_back (error : Option Daemon.ActionError) :
    Reads (Value.optional Android.ActionError.ofValue
      (error.map fun error => .object (written error.fields)))
      fun held => SameOption SameError held error := by
  cases error with
  | none => exact ⟨none, rfl, trivial⟩
  | some error =>
      rw [Option.map_some, optional_object, reads_map, Android.ActionError.ofValue,
        reads_readProperties (by simp [Daemon.ActionError.fields])]
      simp [Daemon.ActionError.fields, List.lookup_cons, SameOption, SameError]

section Depth

@[simp] theorem unlessDefault_eq_some {α : Type} [DecidableEq α] {default value : α}
    {write : α → Value} {held : Value} :
    Android.unlessDefault default write value = some held ↔
      value ≠ default ∧ write value = held := by
  rw [Android.unlessDefault]
  split
  · rename_i same
    exact iff_of_false nofun fun both => both.1 same
  · rename_i different
    rw [Option.some_inj, and_iff_right different]

@[simp] theorem depth_strings (texts : List String) : (Android.strings texts).depth = 1 := by
  rw [Android.strings, Value.depth, Value.itemsDepth_strings]

@[simp] theorem depth_scopes (scopes : Android.BridgeScopes) :
    (Value.object (written scopes.properties)).depth ≤ 126 := by
  rw [Value.depth, Nat.add_one_le_iff, Nat.lt_add_one_iff, depth_written]
  simp [Android.BridgeScopes.properties]

@[simp] theorem depth_error (error : Android.ActionError) :
    (Value.object (written error.properties)).depth ≤ 126 := by
  rw [Value.depth, Nat.add_one_le_iff, Nat.lt_add_one_iff, depth_written]
  simp [Android.ActionError.properties]

end Depth

end Wire

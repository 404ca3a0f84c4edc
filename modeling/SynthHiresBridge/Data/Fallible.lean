import Mathlib.Data.List.Forall2

namespace Except

variable {Reason Item Result : Type*}

theorem bind_ok_iff {first : Except Reason Item} {next : Item → Except Reason Result}
    {result : Result} :
    first.bind next = .ok result ↔ ∃ item, first = .ok item ∧ next item = .ok result := by
  cases first with
  | error reason =>
      refine iff_of_false nofun ?_
      rintro ⟨item, same, -⟩
      cases same
  | ok item =>
      constructor
      · exact fun done => ⟨item, rfl, done⟩
      · rintro ⟨other, same, done⟩
        cases same
        exact done

theorem map_ok_iff {first : Except Reason Item} {change : Item → Result} {result : Result} :
    first.map change = .ok result ↔ ∃ item, first = .ok item ∧ change item = result := by
  cases first with
  | error reason =>
      refine iff_of_false nofun ?_
      rintro ⟨item, same, -⟩
      cases same
  | ok item =>
      constructor
      · exact fun done => ⟨item, rfl, Except.ok.inj done⟩
      · rintro ⟨other, same, rfl⟩
        cases same
        rfl

/-- A loop that may stop succeeds where each of its steps does. -/
theorem mapM_ok_iff {step : Item → Except Reason Result} {items : List Item}
    {results : List Result} : items.mapM step = .ok results ↔
      List.Forall₂ (fun item result => step item = .ok result) items results := by
  induction items generalizing results with
  | nil =>
      rw [List.mapM_nil, List.forall₂_nil_left_iff]
      exact ⟨fun same => (Except.ok.inj same).symm, fun same => same ▸ rfl⟩
  | cons item rest ih =>
      rw [List.mapM_cons, List.forall₂_cons_left_iff]
      constructor
      · intro done
        obtain ⟨first, here, later⟩ := bind_ok_iff.mp done
        obtain ⟨others, more, same⟩ := bind_ok_iff.mp later
        exact ⟨first, others, here, ih.mp more, (Except.ok.inj same).symm⟩
      · rintro ⟨first, others, here, more, rfl⟩
        exact bind_ok_iff.mpr ⟨first, here, bind_ok_iff.mpr ⟨others, ih.mpr more, rfl⟩⟩

/-- A run of steps that may stop succeeds in two parts. -/
theorem foldlM_append_ok_iff {step : Result → Item → Except Reason Result} {front rest : List Item}
    {first last : Result} : (front ++ rest).foldlM step first = .ok last ↔
      ∃ middle, front.foldlM step first = .ok middle ∧ rest.foldlM step middle = .ok last := by
  rw [List.foldlM_append]
  exact bind_ok_iff

theorem foldlM_concat_ok_iff {step : Result → Item → Except Reason Result} {front : List Item}
    {item : Item} {first last : Result} : (front ++ [item]).foldlM step first = .ok last ↔
      ∃ middle, front.foldlM step first = .ok middle ∧ step middle item = .ok last := by
  rw [foldlM_append_ok_iff]
  refine exists_congr fun middle => and_congr_right fun _ => ?_
  rw [List.foldlM_cons]
  refine bind_ok_iff.trans ⟨?_, fun done => ⟨last, done, rfl⟩⟩
  rintro ⟨next, done, same⟩
  rw [done, Except.ok.inj same]

end Except

namespace Option

/-- A list is read where each of its items is. -/
theorem mapM_list_iff {Item Result : Type} {step : Item → Option Result} {items : List Item}
    {results : List Result} : items.mapM step = some results ↔
      List.Forall₂ (fun item result => step item = some result) items results := by
  induction items generalizing results with
  | nil =>
      rw [List.mapM_nil, List.forall₂_nil_left_iff]
      exact ⟨fun same => (Option.some.inj same).symm, fun same => same ▸ rfl⟩
  | cons item rest ih =>
      rw [List.mapM_cons, List.forall₂_cons_left_iff]
      constructor
      · intro done
        obtain ⟨first, here, later⟩ := Option.bind_eq_some_iff.mp done
        obtain ⟨others, more, same⟩ := Option.bind_eq_some_iff.mp later
        exact ⟨first, others, here, ih.mp more, (Option.some.inj same).symm⟩
      · rintro ⟨first, others, here, more, rfl⟩
        exact Option.bind_eq_some_iff.mpr
          ⟨first, here, Option.bind_eq_some_iff.mpr ⟨others, ih.mpr more, rfl⟩⟩

theorem isSome_of_mapM {Item Result : Type} {step : Item → Option Result} {items : List Item}
    {results : List Result} (read : items.mapM step = some results) :
    ∀ item ∈ items, (step item).isSome := by
  have each : List.Forall₂ (fun item result => (step item).isSome ∧ step item = some result)
      items results :=
    (mapM_list_iff.mp read).imp fun _ _ same => ⟨Option.isSome_of_eq_some same, same⟩
  exact ((List.forall₂_and_left items results).mp each).1

end Option

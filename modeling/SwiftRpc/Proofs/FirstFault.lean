import SwiftRpc.Proofs.Growth

/-!
# How far a file gets

A file is registered declaration by declaration, and the walk ends at the first one that cannot be
registered. `Registers` says of a list of declarations that each of them can be, after the ones
before it; `Faults` says what is wrong with a declaration that cannot, and which of several faults
counts. With these two, `passed` is the longest list that goes through (`registers_passed`,
`prefix_passed`), and the error of the file is the fault of the declaration after it
(`error?_overList_declare`).
-/

namespace SwiftRpc.Api.Registry

open SwiftRpc.Descriptor

variable {r : Registry} {file : File} {d : Declaration} {ds : List Declaration}

/-! ## One declaration -/

/-- What stands in the way of the declaration. A name that is taken counts last, only if nothing is
lacking. -/
inductive Faults (r : Registry) (file : File) (d : Declaration) : DescriptorError → Prop
  | lacks {e : DescriptorError} (h : d.Lacks file e) : Faults r file d e
  | taken (hwf : d.WellFormed) (h : ¬ r.Free (d.entry file)) :
      Faults r file d (.registry (d.entry file).duplicate)

theorem declare_of_faults (hr : r.Valid) {e : DescriptorError} (h : r.Faults file d e) :
    r.declare file d = ⟨r, some e⟩ := by
  cases h with
  | lacks h => exact declare_of_lacks h
  | taken hwf htaken =>
    rw [declare_eq hwf, add_eq_duplicate hr htaken]
    rfl

theorem exists_faults (h : ¬ (d.WellFormed ∧ r.Free (d.entry file))) :
    ∃ e, r.Faults file d e := by
  by_cases hwf : d.WellFormed
  · exact ⟨_, .taken hwf fun hfree => h ⟨hwf, hfree⟩⟩
  · obtain ⟨e, he⟩ := exists_lacks hwf
    exact ⟨e, .lacks he⟩

/-- A fault is reported as it is, and there is never a second one. -/
theorem faults_iff (hr : r.Valid) {e e' : DescriptorError} {r' : Registry}
    (hd : r.declare file d = ⟨r', some e'⟩) : r.Faults file d e ↔ e' = e := by
  constructor
  · intro h
    rw [declare_of_faults hr h] at hd
    cases hd
    rfl
  · rintro rfl
    have hnot : ¬ (d.WellFormed ∧ r.Free (d.entry file)) := by
      intro ⟨hwf, hfree⟩
      rw [(declare_eq_done hr).2 ⟨hwf, hfree, rfl⟩] at hd
      cases hd
    obtain ⟨e, he⟩ := exists_faults hnot
    rw [declare_of_faults hr he] at hd
    cases hd
    exact he

/-! ## Many declarations -/

/-- Every declaration is well formed, and its name is not taken when its turn comes. -/
def Registers (r : Registry) (file : File) (ds : List Declaration) : Prop :=
  ∀ before d after, ds = before ++ d :: after →
    d.WellFormed ∧ (r.pushAll (before.map (·.entry file))).Free (d.entry file)

theorem registers_nil : r.Registers file [] := by
  intro before d after h
  simp at h

theorem registers_cons :
    r.Registers file (d :: ds) ↔
      (d.WellFormed ∧ r.Free (d.entry file)) ∧ (r.push (d.entry file)).Registers file ds := by
  constructor
  · intro h
    refine ⟨h [] d ds rfl, ?_⟩
    rintro before d' after rfl
    exact h (d :: before) d' after rfl
  · rintro ⟨hd, hds⟩ before d' after hsplit
    cases before with
    | nil =>
      cases hsplit
      exact hd
    | cons d₀ before =>
      obtain ⟨rfl, hrest⟩ := List.cons.inj hsplit
      exact hds before d' after hrest

theorem registers_passed (hr : r.Valid) (ds : List Declaration) :
    r.Registers file (passed file r ds) := by
  induction ds generalizing r with
  | nil => exact registers_nil
  | cons d rest ih =>
    rcases declare_cases r file d with ⟨-, hd⟩ | ⟨e, hd⟩
    · obtain ⟨hwf, hfree, -⟩ := (declare_eq_done hr).1 hd
      rw [passed_cons_of_done hd]
      exact registers_cons.2 ⟨⟨hwf, hfree⟩, ih (hr.push hfree)⟩
    · rw [passed_cons_of_fault hd]
      exact registers_nil

/-- No list that goes through is longer. -/
theorem prefix_passed (hr : r.Valid) {all : List Declaration} (hds : ds <+: all)
    (h : r.Registers file ds) : ds <+: passed file r all := by
  induction ds generalizing r all with
  | nil => exact List.nil_prefix
  | cons d ds ih =>
    obtain ⟨rest, rfl⟩ := hds
    obtain ⟨⟨hwf, hfree⟩, hrest⟩ := registers_cons.1 h
    rw [List.cons_append, passed_cons_of_done ((declare_eq_done hr).2 ⟨hwf, hfree, rfl⟩),
      List.cons_prefix_cons]
    exact ⟨rfl, ih (hr.push hfree) (List.prefix_append ds rest) hrest⟩

/-- **The error is the fault of the first declaration that cannot be registered**, in the registry
that the ones before it have left. -/
theorem error?_overList_declare (hr : r.Valid) {e : DescriptorError} :
    (Progress.overList (declare file) r ds).error? = some e ↔
      ∃ d after, ds = passed file r ds ++ d :: after ∧
        (r.pushAll ((passed file r ds).map (·.entry file))).Faults file d e := by
  induction ds generalizing r with
  | nil => simp [Progress.overList]
  | cons d rest ih =>
    rcases declare_cases r file d with ⟨-, hd⟩ | ⟨e', hd⟩
    · obtain ⟨-, hfree, -⟩ := (declare_eq_done hr).1 hd
      rw [Progress.overList_cons_of_none hd, passed_cons_of_done hd, ih (hr.push hfree)]
      simp only [List.cons_append, List.cons.injEq, true_and]
      rfl
    · rw [Progress.overList_cons_of_some hd, passed_cons_of_fault hd]
      simp only [List.nil_append, List.cons.injEq, Option.some.injEq]
      constructor
      · rintro rfl
        exact ⟨d, rest, ⟨rfl, rfl⟩, (faults_iff hr hd).2 rfl⟩
      · rintro ⟨d', after, ⟨rfl, rfl⟩, hfaults⟩
        exact (faults_iff hr hd).1 hfaults

/-- **How far a file gets.** Whatever calls came before, a file enters exactly the longest initial
part of its declarations in which every one is well formed and its name not taken when its turn
comes. If that is not all, the next declaration leaves nothing behind, and its fault is the error
of the file: its own name comes first, then the first field without a type name or the first method
without a name, and last that the name is taken. -/
theorem addFile_exact (calls : List Call) (file : File) :
    let r := empty.after calls
    ∃ registered rest, file.declarations = registered ++ rest ∧
      r.Registers file registered ∧
      (∀ ds, ds <+: file.declarations → r.Registers file ds → ds <+: registered) ∧
      (r.addFile file).registry = r.pushAll (registered.map (·.entry file)) ∧
      ((r.addFile file).error? = none ↔ rest = []) ∧
      ∀ e, (r.addFile file).error? = some e ↔
        ∃ d after, rest = d :: after ∧
          (r.pushAll (registered.map (·.entry file))).Faults file d e := by
  intro r
  have hr : r.Valid := valid_empty.after calls
  rw [addFile_eq_overList]
  obtain ⟨hregistry, rest, hsplit, hnone⟩ := overList_declare file r file.declarations
  refine ⟨passed file r file.declarations, rest, hsplit, registers_passed hr _,
    fun ds hds h => prefix_passed hr hds h, hregistry, hnone, fun e => ?_⟩
  rw [error?_overList_declare hr]
  refine exists_congr fun d => exists_congr fun after => and_congr_left fun _ => ?_
  -- what is left over is the same list on both sides
  constructor
  · intro h
    exact List.append_cancel_left (hsplit.symm.trans h)
  · rintro rfl
    exact hsplit

/-- The message inside `Outer` lacks two type names, and its name is taken as well. The first field
that lacks one is reported. `Outer` stays, and neither the enumeration inside it nor the unnamed
message after it is looked at. -/
theorem addFile_exact_nested :
    let text : Descriptor.Field := { name? := some "text", type? := some 9 }
    let part : Descriptor.Field := { name? := some "part", type? := some 11 }
    let mode : Descriptor.Field := { name? := some "mode", type? := some 14 }
    let inner : Message := { name? := some "Inner", fields := [text, part, mode] }
    let outer : Message :=
      { name? := some "Outer", nested := [inner], enums := [{ name? := some "Mode" }] }
    let file : File := { package? := some "a", messages := [outer, {}] }
    let r := empty.after [.add (.model { name := "a.Outer.Inner" })]
    (r.addFile file).registry = r.pushModel (Model.described file "a" outer) ∧
      (r.addFile file).error? = some (.missingTypeName "a.Outer.Inner" "part") := by
  intro text part mode inner outer file r
  obtain ⟨registered, rest, hsplit, hregisters, hlongest, hregistry, -, herror⟩ :=
    addFile_exact [.add (.model { name := "a.Outer.Inner" })] file
  have hall : file.declarations =
      .message "a" outer :: .message "a.Outer" inner ::
        [.enum "a.Outer" { name? := some "Mode" }, .message "a" {}] := rfl
  have hfree : Name.join "a" outer.name ∉ r.modelNames := by decide +kernel
  have houter : r.Registers file [.message "a" outer] :=
    registers_cons.2 ⟨⟨⟨by decide, by simp [outer]⟩, hfree⟩, registers_nil⟩
  obtain ⟨more, rfl⟩ := hlongest _ ⟨_, hall.symm⟩ houter
  rw [hall] at hsplit
  cases more with
  | cons d more =>
    -- the message inside would have to be well formed
    obtain ⟨rfl, -⟩ := List.cons.inj (List.cons.inj hsplit).2
    have hwf := (hregisters [.message "a" outer] _ more rfl).1
    exact absurd rfl (hwf.2 part (by simp [inner]) (Or.inr (Or.inl rfl)))
  | nil =>
    refine ⟨hregistry, (herror _).2 ⟨_, _, (List.cons.inj hsplit).2.symm, .lacks ?_⟩⟩
    have hfields : inner.fields = [text] ++ part :: [mode] := rfl
    have hbefore : ∀ d ∈ [text], IsReference d → d.typeName ≠ "" := by
      simp [IsReference, text]
    exact .typeName (by decide) hfields hbefore (Or.inr (Or.inl rfl)) rfl

end SwiftRpc.Api.Registry

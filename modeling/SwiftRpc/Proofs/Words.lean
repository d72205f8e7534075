import SwiftRpc.Proofs.Text
import SwiftRpc.Swift.Spelling

/-!
# Swift names as lists of words

An underscore ends a word of a Swift name wherever it comes from: from a dot of the schema's name,
from the end of a package or from an underscore that was there before. What is left of the schema's
name is the list of its words (`nameWords`), and two types have the same Swift name exactly if they
have the same words.
-/

namespace SwiftRpc.Text

/-! ## Underscores and letter case -/

theorem eq_toNat_of_ofNat_eq {n : Nat} {d : Char} (hd : d ≠ '\x00') (h : Char.ofNat n = d) :
    n = d.toNat := by
  by_cases hv : n.isValidChar
  · rw [Char.ofNat, dif_pos hv] at h
    exact congrArg Char.toNat h
  · rw [Char.ofNat, dif_neg hv] at h
    exact absurd h.symm hd

/-- A character that the tables never give comes from itself only. -/
theorem not_mem_mapCase {sequences : List (Nat × List Nat)} {runs : List CaseRun} {d : Char}
    (hd : d ≠ '\x00') (hsequences : ∀ q ∈ sequences, d ∉ q.2.map Char.ofNat)
    (hruns : ∀ r ∈ runs, r.covers (d.toNat - r.shift).toNat = false) {c : Char} (h : c ≠ d) :
    d ∉ mapCase sequences runs c := by
  unfold mapCase
  split
  · rename_i codes hcodes
    obtain ⟨before, after, hsplit, -⟩ := List.lookup_eq_some_iff.1 hcodes
    exact hsequences (c.toNat, codes) (by rw [hsplit]; simp)
  · split
    · rename_i run hrun
      rw [List.mem_singleton]
      intro heq
      have hcode : (c.toNat + run.shift).toNat = d.toNat := eq_toNat_of_ofNat_eq hd heq.symm
      have hpos : d.toNat ≠ 0 := fun hzero => hd (Char.toNat_inj.1 hzero)
      -- then the code point that the run covers would be the one that is mapped to `d`
      have hback : (d.toNat - run.shift).toNat = c.toNat := by omega
      have hcovers : run.covers c.toNat = true := by simpa using List.find?_some hrun
      rw [← hback, hruns run (List.mem_of_find?_eq_some hrun)] at hcovers
      cases hcovers
    · rw [List.mem_singleton]
      exact Ne.symm h

/-- Only an underscore is an underscore in upper case. -/
theorem underscore_not_mem_upper {c : Char} (h : c ≠ '_') : '_' ∉ upper c :=
  not_mem_mapCase (by decide) (by decide +kernel) (by decide +kernel) h

end SwiftRpc.Text

namespace SwiftRpc.Name

open SwiftRpc.Text

theorem underscore_not_mem_pascalChars (s : List Char) : '_' ∉ pascalChars s := by
  intro h
  obtain ⟨piece, hpiece, hmem⟩ := List.mem_flatMap.1 h
  have hno := not_mem_of_mem_splitOn hpiece
  cases piece with
  | nil => exact absurd hmem List.not_mem_nil
  | cons c rest =>
    rw [List.mem_cons, not_or] at hno
    rcases List.mem_append.1 hmem with hmem | hmem
    · exact underscore_not_mem_upper (Ne.symm hno.1) hmem
    · exact hno.2 hmem

end SwiftRpc.Name

namespace SwiftRpc.Swift

open SwiftRpc.Text

/-- The words of a package, one per part between dots. -/
def packageWords (package : String) : List (List Char) :=
  if package = "" then [] else (package.toList.splitOn '.').map Name.pascalChars

/-- The words of a type: those of its package, then those of its place in it. -/
def nameWords (package relativeName : String) : List (List Char) :=
  packageWords package ++ (relativeName.toList.splitOn '.').flatMap (List.splitOn '_')

theorem underscore_not_mem_packageWords {package : String} {w : List Char}
    (h : w ∈ packageWords package) : '_' ∉ w := by
  unfold packageWords at h
  split at h
  · exact absurd h List.not_mem_nil
  · obtain ⟨piece, -, rfl⟩ := List.mem_map.1 h
    exact Name.underscore_not_mem_pascalChars piece

/-- The words of the package come first in whatever has its lead. -/
theorem splitOn_packageLead (package : String) (s : List Char) :
    ((packageLead package).toList ++ s).splitOn '_' =
      packageWords package ++ s.splitOn '_' := by
  have hno : ∀ w ∈ packageWords package, '_' ∉ w := fun w => underscore_not_mem_packageWords
  unfold packageLead
  unfold packageWords at hno ⊢
  split
  · rfl
  · rename_i hne
    rw [if_neg hne] at hno
    have hwords : (package.toList.splitOn '.').map Name.pascalChars ≠ [] := by
      simp [List.splitOn_ne_nil]
    rw [String.toList_ofList, List.append_assoc, List.singleton_append,
      List.splitOn_append_cons_self, List.splitOn_intercalate '_' hno hwords]

theorem splitOn_typeName (package relativeName : String) :
    (typeName package relativeName).toList.splitOn '_' = nameWords package relativeName := by
  rw [typeName, String.toList_append, splitOn_packageLead, String.toList_ofList, splitOn_map,
    nameWords]

/-- The lead itself ends with an underscore. -/
theorem splitOn_toList_packageLead (package : String) :
    (packageLead package).toList.splitOn '_' = packageWords package ++ [[]] := by
  have hcut := splitOn_packageLead package []
  rwa [List.append_nil] at hcut

theorem packageLead_eq_iff {package package' : String} :
    packageLead package = packageLead package' ↔ packageWords package = packageWords package' := by
  rw [← String.toList_inj, ← (splitOn_injective '_').eq_iff, splitOn_toList_packageLead,
    splitOn_toList_packageLead, List.append_left_inj]

end SwiftRpc.Swift

import Mathlib.Data.List.TakeWhile
import SwiftRpc.Name
import SwiftRpc.Path

/-!
# The parts of paths

A path is its directory, its stem and the schema's extension if it has one. Dropping the extension
of a path is dropping that of its base name, so both files that are made from a schema stand in its
directory, and what is between the directory and the kind of the file tells them apart.
-/

namespace SwiftRpc.Text

variable {sep : Char} {s t : List Char}

theorem not_mem_afterLast (sep : Char) (s : List Char) : sep ∉ afterLast sep s := by
  intro h
  have hmem := List.mem_takeWhile_imp (List.mem_reverse.1 h)
  simp at hmem

theorem afterLast_append (h : sep ∉ t) : afterLast sep (s ++ t) = afterLast sep s ++ t := by
  have ht : ∀ c ∈ t.reverse, decide (c ≠ sep) = true := by
    intro c hc
    rw [decide_eq_true_eq]
    rintro rfl
    exact h (List.mem_reverse.1 hc)
  rw [afterLast, List.reverse_append, List.takeWhile_append_of_pos ht, List.reverse_append,
    List.reverse_reverse]
  rfl

theorem throughLast_append (h : sep ∉ t) : throughLast sep (s ++ t) = throughLast sep s := by
  -- the two sides of the last separator make up the text, and one of them is known
  have hparts := throughLast_append_afterLast sep (s ++ t)
  rw [afterLast_append h, ← List.append_assoc, List.append_left_inj] at hparts
  exact List.append_cancel_right (hparts.trans (throughLast_append_afterLast sep s).symm)

theorem afterLast_of_not_mem (h : sep ∉ s) : afterLast sep s = s := by
  have happend := afterLast_append (s := []) h
  exact happend

theorem afterLast_append_cons (h : sep ∉ t) : afterLast sep (s ++ sep :: t) = t := by
  have hend : afterLast sep (s ++ [sep]) = [] := by
    rw [afterLast, List.reverse_append]
    simp
  rw [← List.singleton_append, ← List.append_assoc, afterLast_append h, hend, List.nil_append]

theorem throughLast_throughLast (sep : Char) (s : List Char) :
    throughLast sep (throughLast sep s) = throughLast sep s := by
  have happend := throughLast_append (s := throughLast sep s) (not_mem_afterLast sep s)
  rw [throughLast_append_afterLast] at happend
  exact happend.symm

theorem throughLast_ne_nil (h : sep ∈ s) : throughLast sep s ≠ [] := by
  intro hnil
  have hparts := throughLast_append_afterLast sep s
  rw [hnil, List.nil_append] at hparts
  exact not_mem_afterLast sep s (hparts.symm ▸ h)

theorem throughLast_append_of_mem (h : sep ∈ t) :
    throughLast sep (s ++ t) = s ++ throughLast sep t := by
  have hstop : (t.reverse.dropWhile (· ≠ sep)).isEmpty = false := by
    rw [List.isEmpty_eq_false_iff]
    exact fun hnil => throughLast_ne_nil h (List.reverse_eq_nil_iff.2 hnil)
  rw [throughLast, List.reverse_append, List.dropWhile_append, hstop, if_neg Bool.false_ne_true,
    List.reverse_append, List.reverse_reverse]
  rfl

end SwiftRpc.Text

namespace SwiftRpc.Name

theorem slash_not_mem_join {scope name : String} :
    '/' ∉ (join scope name).toList ↔ '/' ∉ scope.toList ∧ '/' ∉ name.toList := by
  unfold join
  split
  · rename_i hscope
    simp [hscope]
  · simp

end SwiftRpc.Name

namespace SwiftRpc.Path

open SwiftRpc.Text

/-- The directory with its slash, empty if the path has none. -/
def directory (path : String) : String := (splitDir path).1

/-- The base name without the schema's extension. -/
def stem (path : String) : String := dropSchemaExtension (splitDir path).2

theorem toList_directory_append_base (path : String) :
    (directory path).toList ++ (splitDir path).2.toList = path.toList := by
  simp only [directory, splitDir, String.toList_ofList]
  exact throughLast_append_afterLast '/' path.toList

theorem slash_not_mem_base (path : String) : '/' ∉ (splitDir path).2.toList := by
  simp only [splitDir, String.toList_ofList]
  exact not_mem_afterLast '/' path.toList

theorem throughLast_directory (path : String) :
    throughLast '/' (directory path).toList = (directory path).toList := by
  simp only [directory, splitDir, String.toList_ofList]
  exact throughLast_throughLast '/' path.toList

/-! ## Extensions -/

theorem extension_base (path : String) : extension (splitDir path).2 = extension path := by
  simp only [extension, extensionChars, splitDir, String.toList_ofList]
  rw [afterLast_of_not_mem (not_mem_afterLast '/' path.toList)]

/-- An extension is no longer than the base name it is taken from. -/
theorem length_extension_le (path : String) :
    (extension path).length ≤ (splitDir path).2.length := by
  have hchars : (extensionChars path.toList).length ≤ (afterLast '/' path.toList).length := by
    unfold extensionChars
    dsimp only
    split
    · rename_i hdot
      have hparts := congrArg List.length
        (throughLast_append_afterLast '.' (afterLast '/' path.toList))
      have hfront := List.length_pos_iff.2 (throughLast_ne_nil hdot)
      rw [List.length_append] at hparts
      rw [List.length_cons]
      omega
    · exact Nat.zero_le _
  simpa [extension, splitDir] using hchars

/-- Of a path the same is dropped as of its base name. -/
theorem dropSchemaExtension_eq (path : String) :
    dropSchemaExtension path = directory path ++ stem path := by
  have hpath := toList_directory_append_base path
  unfold stem dropSchemaExtension
  rw [extension_base]
  by_cases hext : extension path ∈ schemaExtensions
  · simp only [hext, if_true]
    have hlength : path.length - (extension path).length =
        (directory path).toList.length +
          ((splitDir path).2.length - (extension path).length) := by
      have hle := length_extension_le path
      rw [← String.length_toList, ← hpath, List.length_append, String.length_toList]
      simp only [String.length_toList] at hle ⊢
      omega
    rw [hlength, ← hpath, List.take_length_add_append, ← String.toList_inj]
    simp
  · simp only [hext, if_false]
    rw [← String.toList_inj, ← hpath, String.toList_append]

theorem slash_not_mem_stem (path : String) : '/' ∉ (stem path).toList := by
  intro h
  refine slash_not_mem_base path ?_
  unfold stem dropSchemaExtension at h
  dsimp only at h
  split at h
  · rw [String.toList_ofList] at h
    exact List.mem_of_mem_take h
  · exact h

/-- A schema file is told by its directory and its stem. -/
theorem eq_of_isSuffix {path : String} (h : ".proto".toList <:+ path.toList) :
    path = dropSchemaExtension path ++ ".proto" := by
  obtain ⟨front, hfront⟩ := h
  have hslash : '/' ∉ ".proto".toList := by decide
  have hdot : '.' ∉ "proto".toList := by decide
  have hbase : afterLast '/' path.toList = afterLast '/' front ++ '.' :: "proto".toList := by
    rw [← hfront, afterLast_append hslash]
    rfl
  have hext : extension path = ".proto" := by
    rw [extension, extensionChars, hbase, if_pos (by simp), afterLast_append_cons hdot]
    rfl
  have hlength : path.length - ".proto".length = front.length := by
    rw [← String.length_toList, ← hfront, List.length_append, String.length_toList]
    omega
  unfold dropSchemaExtension
  simp only [hext]
  rw [if_pos (by decide), hlength, ← String.toList_inj, String.toList_append,
    String.toList_ofList, ← hfront, List.take_left]

/-! ## Names of the files made from a schema -/

theorem clientFile_eq (qualifier path ext : String) :
    clientFile qualifier path ext =
      directory path ++ Name.join qualifier (stem path) ++ (".twirp." ++ ext) := by
  have hparts : clientFile qualifier path ext =
      directory path ++ (if qualifier = "" then "" else qualifier ++ ".") ++ stem path ++
        ".twirp." ++ ext := rfl
  rw [hparts, Name.join]
  by_cases hq : qualifier = ""
  · simp only [hq, if_true, String.append_assoc, String.empty_append]
  · simp only [hq, if_false, String.append_assoc]

theorem modelFile_eq (path ext : String) :
    modelFile path ext = dropSchemaExtension path ++ (".model." ++ ext) := by
  rw [modelFile, String.append_assoc]

theorem clientFile_inj {qualifier path qualifier' path' ext : String} :
    clientFile qualifier path ext = clientFile qualifier' path' ext ↔
      directory path ++ Name.join qualifier (stem path) =
        directory path' ++ Name.join qualifier' (stem path') := by
  rw [clientFile_eq, clientFile_eq, String.append_left_inj]

theorem modelFile_inj {path path' ext : String} :
    modelFile path ext = modelFile path' ext ↔
      dropSchemaExtension path = dropSchemaExtension path' := by
  rw [modelFile_eq, modelFile_eq, String.append_left_inj]

/-- The seven characters before the target's extension say which of the two a file is. -/
theorem clientFile_ne_modelFile (qualifier path path' ext : String) :
    clientFile qualifier path ext ≠ modelFile path' ext := by
  rw [clientFile_eq, modelFile_eq, ← String.append_assoc, ← String.append_assoc, Ne,
    String.append_left_inj]
  intro h
  have hlist : (directory path ++ Name.join qualifier (stem path)).toList ++ ".twirp.".toList =
      (dropSchemaExtension path').toList ++ ".model.".toList := by
    rw [← String.toList_append, ← String.toList_append, h]
  have hkind := (List.append_inj' hlist (by decide)).2
  exact absurd hkind (by decide)

/-! ## The directory of a generated file -/

/-- What is written behind a directory stays in it as long as it has no slash. -/
theorem directory_append_iff (path name : String) :
    directory (directory path ++ name) = directory path ↔ '/' ∉ name.toList := by
  have hchars : (directory (directory path ++ name)).toList =
      throughLast '/' ((directory path).toList ++ name.toList) := by
    rw [directory, splitDir, String.toList_ofList, String.toList_append]
  rw [← String.toList_inj, hchars]
  by_cases hslash : '/' ∈ name.toList
  · rw [throughLast_append_of_mem hslash, List.append_right_eq_self]
    exact iff_of_false (throughLast_ne_nil hslash) (not_not_intro hslash)
  · rw [throughLast_append hslash, throughLast_directory]
    exact iff_of_true rfl hslash

theorem directory_clientFile_iff (qualifier path ext : String) :
    directory (clientFile qualifier path ext) = directory path ↔
      '/' ∉ qualifier.toList ∧ '/' ∉ ext.toList := by
  have hkind : '/' ∉ ".twirp.".toList := by decide
  have hstem := slash_not_mem_stem path
  rw [clientFile_eq, String.append_assoc, directory_append_iff, String.toList_append,
    String.toList_append, List.mem_append, List.mem_append, not_or, not_or,
    Name.slash_not_mem_join]
  constructor
  · rintro ⟨⟨hqualifier, -⟩, -, hext⟩
    exact ⟨hqualifier, hext⟩
  · rintro ⟨hqualifier, hext⟩
    exact ⟨⟨hqualifier, hstem⟩, hkind, hext⟩

theorem directory_modelFile_iff (path ext : String) :
    directory (modelFile path ext) = directory path ↔ '/' ∉ ext.toList := by
  have hkind : '/' ∉ ".model.".toList := by decide
  have hstem := slash_not_mem_stem path
  rw [modelFile_eq, dropSchemaExtension_eq, String.append_assoc, directory_append_iff,
    String.toList_append, String.toList_append, List.mem_append, List.mem_append, not_or, not_or]
  constructor
  · rintro ⟨-, -, hext⟩
    exact hext
  · intro hext
    exact ⟨hstem, hkind, hext⟩

/-- **Generated files stand beside their schema.** The extension of a schema is dropped from its
base name, so it does not matter whether the directory is split off first. The file of clients is in
the directory of the schema exactly if neither the qualifier nor the target's extension has a slash,
the file of models exactly if the extension has none. No file is both. -/
theorem generated_beside (path : String) :
    dropSchemaExtension path = (splitDir path).1 ++ dropSchemaExtension (splitDir path).2 ∧
    (∀ qualifier ext : String,
      (splitDir (clientFile qualifier path ext)).1 = (splitDir path).1 ↔
        '/' ∉ qualifier.toList ∧ '/' ∉ ext.toList) ∧
    (∀ ext : String, (splitDir (modelFile path ext)).1 = (splitDir path).1 ↔ '/' ∉ ext.toList) ∧
    ∀ qualifier path' ext : String, clientFile qualifier path ext ≠ modelFile path' ext := by
  refine ⟨dropSchemaExtension_eq path, ?_, ?_, ?_⟩
  · intro qualifier ext
    exact directory_clientFile_iff qualifier path ext
  · intro ext
    exact directory_modelFile_iff path ext
  · intro qualifier path' ext
    exact clientFile_ne_modelFile qualifier path path' ext

end SwiftRpc.Path

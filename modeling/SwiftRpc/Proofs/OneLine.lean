import SwiftRpc.Proofs.Casing
import SwiftRpc.Proofs.Walks
import SwiftRpc.Proofs.Words

/-!
# Names on one line

If no name that the schema gives has a line feed, neither has anything that is made of it: changing
the case, escaping, quoting and joining names adds none. The Swift name of a type is made of names
that some file of the request gives, whatever the reference to the type looks like.
-/

namespace SwiftRpc.Text

def OneLine (s : String) : Prop := '\n' ∉ s.toList

instance (s : String) : Decidable (OneLine s) := inferInstanceAs (Decidable (¬ _))

theorem oneLine_append {s t : String} : OneLine (s ++ t) ↔ OneLine s ∧ OneLine t := by
  rw [OneLine, String.toList_append, List.mem_append, not_or]
  rfl

theorem OneLine.append {s t : String} (hs : OneLine s) (ht : OneLine t) : OneLine (s ++ t) :=
  oneLine_append.2 ⟨hs, ht⟩

theorem oneLine_ofList {s : List Char} : OneLine (String.ofList s) ↔ '\n' ∉ s := by
  rw [OneLine, String.toList_ofList]

/-- Only a line feed is a line feed in upper case. -/
theorem feed_not_mem_upper {c : Char} (h : c ≠ '\n') : '\n' ∉ upper c :=
  not_mem_mapCase (by decide) (by decide +kernel) (by decide +kernel) h

theorem feed_not_mem_lower {c : Char} (h : c ≠ '\n') : '\n' ∉ lower c :=
  not_mem_mapCase (by decide) (by decide +kernel) (by decide +kernel) h

theorem feed_not_mem_lowerAscii {s : List Char} (h : '\n' ∉ s) : '\n' ∉ lowerAscii s := by
  intro hmem
  obtain ⟨c, hc, hlow⟩ := List.mem_map.1 hmem
  rw [(Name.toLower_eq_iff (by decide)).1 hlow] at hc
  exact h hc

end SwiftRpc.Text

namespace SwiftRpc.Name

open SwiftRpc.Text

theorem feed_not_mem_camelFrom {s : List Char} (h : '\n' ∉ s) (raise : Bool) :
    '\n' ∉ camelFrom raise s := by
  intro hmem
  refine forall_mem_camelFrom (p := (· ≠ '\n')) (fun c hc _ => ?_) raise '\n' hmem rfl
  have hne : c ≠ '\n' := fun heq => h (heq ▸ hc)
  exact ⟨hne, fun d hd heq => feed_not_mem_upper hne (heq ▸ hd)⟩

theorem oneLine_lowerCamel {s : String} (h : OneLine s) : OneLine (lowerCamel s) := by
  rw [lowerCamel, oneLine_ofList, lowerCamelChars]
  refine feed_not_mem_camelFrom (fun hmem => h ?_) false
  exact (List.dropWhile_sublist _).subset hmem

theorem oneLine_decapitalize {s : String} (h : OneLine s) : OneLine (decapitalize s) := by
  rw [decapitalize, oneLine_ofList]
  unfold OneLine at h
  cases hs : s.toList with
  | nil => exact List.not_mem_nil
  | cons c rest =>
    rw [hs, List.mem_cons, not_or] at h
    rw [decapitalizeChars, List.mem_append, not_or]
    exact ⟨feed_not_mem_lower (Ne.symm h.1), h.2⟩

theorem oneLine_short {s : String} (h : OneLine s) : OneLine (short s) := by
  rw [short, oneLine_ofList]
  intro hmem
  refine h ?_
  rw [← throughLast_append_afterLast '.' s.toList]
  exact List.mem_append_right _ hmem

theorem oneLine_join {scope name : String} (hscope : OneLine scope) (hname : OneLine name) :
    OneLine (join scope name) := by
  unfold join
  split
  · exact hname
  · exact (hscope.append (by decide)).append hname

end SwiftRpc.Name

namespace SwiftRpc.Swift

open SwiftRpc.Text

/-! ## Swift names -/

theorem oneLine_escape {s : String} (h : OneLine s) : OneLine (escape s) := by
  have htick : OneLine "`" := by decide
  unfold escape
  split
  · exact (htick.append h).append htick
  · exact h

theorem oneLine_propertyName {s : String} (h : OneLine s) : OneLine (propertyName s) :=
  oneLine_escape (Name.oneLine_lowerCamel h)

theorem oneLine_bareValueName (enumeration : String) {value : String} (h : OneLine value) :
    OneLine (bareValueName enumeration value) := by
  simp only [bareValueName]
  split
  · split
    · rename_i c rest hdrop
      split
      · rw [oneLine_ofList, ← hdrop]
        exact fun hmem => h (List.mem_of_mem_drop hmem)
      · exact h
    · exact h
  · exact h

theorem oneLine_caseName (enumeration : String) {value : String} (h : OneLine value) :
    OneLine (caseName enumeration value) := by
  refine oneLine_escape (Name.oneLine_lowerCamel (oneLine_ofList.2 ?_))
  exact feed_not_mem_lowerAscii (oneLine_bareValueName enumeration h)

theorem oneLine_packageLead {package : String} (h : OneLine package) :
    OneLine (packageLead package) := by
  unfold packageLead
  split
  · decide
  · rw [oneLine_ofList, ← flatMap_eq_intercalate '_' (by simp [List.splitOn_ne_nil])]
    intro hmem
    obtain ⟨word, hword, hfeed⟩ := List.mem_flatMap.1 hmem
    obtain ⟨piece, hpiece, rfl⟩ := List.mem_map.1 hword
    have hno : '\n' ∉ piece := fun hin => h (mem_of_mem_splitOn hpiece hin)
    rcases List.mem_append.1 hfeed with hfeed | hfeed
    · rw [← (Name.camelFrom_splitOn piece).1] at hfeed
      exact Name.feed_not_mem_camelFrom hno true hfeed
    · exact absurd hfeed (by decide)

theorem oneLine_typeName {package relativeName : String} (hpackage : OneLine package)
    (hname : OneLine relativeName) : OneLine (typeName package relativeName) := by
  refine (oneLine_packageLead hpackage).append (oneLine_ofList.2 fun hmem => ?_)
  obtain ⟨c, hc, heq⟩ := List.mem_map.1 hmem
  split at heq
  · exact absurd heq (by decide)
  · exact hname (heq ▸ hc)

theorem feed_not_mem_quoteChars {s : List Char} (h : '\n' ∉ s) : '\n' ∉ quoteChars s := by
  induction s with
  | nil => exact List.not_mem_nil
  | cons c rest ih =>
    rw [List.mem_cons, not_or] at h
    rw [quoteChars]
    split
    · simp [h.1, ih h.2]
    · simp [h.1, ih h.2]

end SwiftRpc.Swift

/-! ## The names that a schema gives -/

namespace SwiftRpc.Descriptor

/-- The names that a declaration gives: its own, and those of its fields, values or methods. -/
def Declaration.givenNames : Declaration → List String
  | .message _ m => m.name :: m.fields.flatMap fun d => [d.name, d.jsonName]
  | .enum _ e => e.name :: e.values.map (·.name)
  | .service s => s.name :: s.methods.map (·.name)

def File.givenNames (f : File) : List String :=
  f.name :: f.package :: f.declarations.flatMap (·.givenNames)

/-- The names that the files of a request give, files and packages included. -/
def Request.givenNames (r : Request) : List String := r.files.flatMap (·.givenNames)

theorem File.givenNames_of_declared {f : File} {d : Declaration} (hd : d ∈ f.declarations)
    {name : String} (h : name ∈ d.givenNames) : name ∈ f.givenNames :=
  List.mem_cons_of_mem _ (List.mem_cons_of_mem _ (List.mem_flatMap.2 ⟨d, hd, h⟩))

theorem Request.givenNames_of_file {r : Request} {f : File} (hf : f ∈ r.files) {name : String}
    (h : name ∈ f.givenNames) : name ∈ r.givenNames :=
  List.mem_flatMap.2 ⟨f, hf, h⟩

end SwiftRpc.Descriptor

namespace SwiftRpc.Swift.TypeIndex

open SwiftRpc.Descriptor
open SwiftRpc.Text

mutual

theorem oneLine_ofMessage (package : String) {scope : String} (hscope : OneLine scope)
    (outer : String) :
    ∀ m : Message, (∀ d ∈ m.declarations outer, ∀ name ∈ d.givenNames, OneLine name) →
      ∀ b ∈ ofMessage package scope m, OneLine b.2.relativeName
  | ⟨name?, fields, nested, enums, options?⟩, h => by
    rw [Message.declarations, List.forall_mem_cons, List.forall_mem_append] at h
    obtain ⟨hname, hnested, henums⟩ := h
    have hinner : OneLine (Name.join scope (name?.getD "")) :=
      Name.oneLine_join hscope (hname _ List.mem_cons_self)
    intro b hb
    rw [ofMessage, List.mem_cons, List.mem_append, List.mem_map] at hb
    rcases hb with rfl | hb | ⟨e, he, rfl⟩
    · exact hinner
    · exact oneLine_ofMessages package hinner _ nested hnested b hb
    · exact Name.oneLine_join hinner
        (henums _ (List.mem_map_of_mem he) _ List.mem_cons_self)

theorem oneLine_ofMessages (package : String) {scope : String} (hscope : OneLine scope)
    (outer : String) :
    ∀ l : List Message,
      (∀ d ∈ Message.allDeclarations outer l, ∀ name ∈ d.givenNames, OneLine name) →
      ∀ b ∈ ofMessages package scope l, OneLine b.2.relativeName
  | [], _ => by simp [ofMessages]
  | m :: rest, h => by
    rw [Message.allDeclarations, List.forall_mem_append] at h
    intro b hb
    rw [ofMessages, List.mem_append] at hb
    rcases hb with hb | hb
    · exact oneLine_ofMessage package hscope outer m h.1 b hb
    · exact oneLine_ofMessages package hscope outer rest h.2 b hb

end

theorem oneLine_ofFile {f : File} (h : ∀ name ∈ f.givenNames, OneLine name)
    {b : String × TypeEntry} (hb : b ∈ ofFile f) : OneLine b.2.relativeName := by
  have hdecls : ∀ d ∈ f.declarations, ∀ name ∈ d.givenNames, OneLine name :=
    fun d hd name hname => h name (File.givenNames_of_declared hd hname)
  rw [File.declarations, List.forall_mem_append, List.forall_mem_append] at hdecls
  obtain ⟨⟨hmessages, henums⟩, -⟩ := hdecls
  rw [ofFile, List.mem_append, List.mem_map] at hb
  rcases hb with hb | ⟨e, he, rfl⟩
  · exact oneLine_ofMessages f.package (by decide) _ f.messages hmessages b hb
  · exact henums _ (List.mem_map_of_mem he) _ List.mem_cons_self

/-- Every reference that is found and the Swift name found for it are on one line. -/
def Neat (index : TypeIndex) : Prop :=
  ∀ reference e, index.resolve? reference = some e →
    OneLine (Name.absolute reference) ∧ OneLine (typeName e.package e.relativeName)

theorem neat_ofFiles {r : Request} (h : ∀ name ∈ r.givenNames, OneLine name) :
    (ofFiles r.files).Neat := by
  intro reference e he
  obtain ⟨f, hf, hb⟩ := List.mem_flatMap.1 (Dictionary.mem_of_get?_ofList he)
  have hgiven : ∀ name ∈ f.givenNames, OneLine name :=
    fun name hname => h name (Request.givenNames_of_file hf hname)
  have hpackage : OneLine f.package := hgiven _ (List.mem_cons_of_mem _ List.mem_cons_self)
  have hrelative : OneLine e.relativeName := oneLine_ofFile hgiven hb
  have hbinding := package_ofFile hb
  have hname : Name.absolute reference = Name.join f.package e.relativeName :=
    congrArg Prod.fst hbinding
  have hentry : e = ⟨f.package, e.relativeName, e.kind⟩ := congrArg Prod.snd hbinding
  rw [hname, hentry]
  exact ⟨Name.oneLine_join hpackage hrelative, oneLine_typeName hpackage hrelative⟩

end SwiftRpc.Swift.TypeIndex

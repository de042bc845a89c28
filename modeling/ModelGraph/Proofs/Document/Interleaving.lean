/-
# The order of kinds in a document

The elements of a document are sorted by kind as they are read. Each element makes a document of
its own that has nothing else, and a document is all of these put together, list by list. A list takes
from elements of one kind only. So the order within each kind shows, and how kinds are mixed does not.

Key definitions: `Document.kind?`, `Document.append`.
Key theorems: `Document.read_eq`, `Document.foldl_append_eq`, `Document.read_interleaved`.
-/
import Mathlib.Data.List.Basic
import ModelGraph.Build

namespace ModelGraph

open List Bool

/-! ### Equality of values -/

namespace Json

mutual

/-- Whether two values are the same. -/
def same : Json → Json → Bool
  | .null, .null => true
  | .bool a, .bool b => a = b
  | .number a, .number b => a = b
  | .string a x, .string b y => a = b && x = y
  | .array a xs, .array b ys => a = b && sameItems xs ys
  | .object a ms, .object b ns => a = b && sameMembers ms ns
  | _, _ => false

def sameItems : List Json → List Json → Bool
  | [], [] => true
  | x :: xs, y :: ys => same x y && sameItems xs ys
  | _, _ => false

def sameMembers : List (String × Json) → List (String × Json) → Bool
  | [], [] => true
  | (k, x) :: ms, (l, y) :: ns => k = l && same x y && sameMembers ms ns
  | _, _ => false

end

mutual

theorem eq_of_same : ∀ {a b : Json}, same a b = true → a = b
  | .null, b, h => by cases b <;> simp_all [same]
  | .bool _, b, h => by cases b <;> simp_all [same]
  | .number _, b, h => by cases b <;> simp_all [same]
  | .string _ _, b, h => by cases b <;> simp_all [same]
  | .array t xs, b, h => by
    cases b <;> simp only [same, and_eq_true, decide_eq_true_eq, false_eq_true] at h
    rw [h.1, eq_of_sameItems h.2]
  | .object t ms, b, h => by
    cases b <;> simp only [same, and_eq_true, decide_eq_true_eq, false_eq_true] at h
    rw [h.1, eq_of_sameMembers h.2]

theorem eq_of_sameItems : ∀ {xs ys : List Json}, sameItems xs ys = true → xs = ys
  | [], ys, h => by cases ys <;> simp_all [sameItems]
  | x :: xs, ys, h => by
    cases ys <;> simp only [sameItems, and_eq_true, false_eq_true] at h
    rw [eq_of_same h.1, eq_of_sameItems h.2]

theorem eq_of_sameMembers : ∀ {ms ns : List (String × Json)}, sameMembers ms ns = true → ms = ns
  | [], ns, h => by cases ns <;> simp_all [sameMembers]
  | (k, x) :: ms, ns, h => by
    cases ns <;> simp only [sameMembers, and_eq_true, decide_eq_true_eq, false_eq_true] at h
    rw [eq_of_same h.1.2, eq_of_sameMembers h.2, h.1.1]

end

end Json

namespace Document

/-! ### Kinds -/

/-- The tags of the elements that are known here. Each stands for a kind. -/
def coreTags : List String :=
  ["sectionIndex", "profile", "class", "Enumeration", "association", "function", "measure", "mapping",
   "connection", "runtime"]

/-- The kind that a tag stands for; all tags that are not known stand for one. -/
def kindOf (tag : String) : String := if coreTags.contains tag then tag else ""

def kind? (j : Json) : Option String :=
  match tagOf j with
  | .ok tag => if tag = "" then none else some (kindOf tag)
  | .error _ => none

/-- What a text says of the document as a whole, and its elements as they stand. -/
def outline? (text : String) : Option Outline :=
  (Json.read text).bind fun j => (Outline.decoder.decode j).toOption

/-- A document with the elements of another one behind its own. -/
def append (d e : Document) : Document where
  tag := d.tag
  sections := d.sections ++ e.sections
  profiles := d.profiles ++ e.profiles
  classes := d.classes ++ e.classes
  enumerations := d.enumerations ++ e.enumerations
  associations := d.associations ++ e.associations
  functions := d.functions ++ e.functions
  measures := d.measures ++ e.measures
  mappings := d.mappings ++ e.mappings
  connections := d.connections ++ e.connections
  runtimes := d.runtimes ++ e.runtimes
  extensions := d.extensions ++ e.extensions

/-- The document that has this element only, if the element can be read. -/
def single? (j : Json) : Option Document := (addElement {} 0 j).toOption

def size (d : Document) : Nat := d.sections.length + d.elementCount

variable {d e : Document} {tag : String} {j : Json} {js js' : List Json}

/-! ### One element -/

theorem addTagged_eq (d : Document) (tag : String) (j : Json) :
    addTagged d tag j = (addTagged {} tag j).map d.append := by
  have hmap {α : Type} (x : Decode.Decoded α) {put put' : α → Document} (h : ∀ v, put v = d.append (put' v)) :
      x.map put = (x.map put').map d.append := by
    cases x with
    | error f => rfl
    | ok v => exact congrArg Except.ok (h v)
  unfold addTagged
  split <;> exact hmap _ fun v => by simp [append]

theorem addElement_eq (d : Document) (i : Nat) (j : Json) : (addElement d i j).toOption = (single? j).map d.append := by
  unfold single? addElement
  cases tagOf j with
  | error f => rfl
  | ok tag =>
    dsimp only
    split
    · rfl
    · rw [addTagged_eq d]
      cases addTagged {} tag j with
      | error f => rfl
      | ok e => rfl

/-- A document with one entry, in the list for the kind of a tag. -/
structure Lists (tag : String) (e : Document) : Prop where
  size : e.size = 1
  sections : e.sections ≠ [] → kindOf tag = "sectionIndex"
  profiles : e.profiles ≠ [] → kindOf tag = "profile"
  classes : e.classes ≠ [] → kindOf tag = "class"
  enumerations : e.enumerations ≠ [] → kindOf tag = "Enumeration"
  associations : e.associations ≠ [] → kindOf tag = "association"
  functions : e.functions ≠ [] → kindOf tag = "function"
  measures : e.measures ≠ [] → kindOf tag = "measure"
  mappings : e.mappings ≠ [] → kindOf tag = "mapping"
  connections : e.connections ≠ [] → kindOf tag = "connection"
  runtimes : e.runtimes ≠ [] → kindOf tag = "runtime"
  extensions : e.extensions ≠ [] → kindOf tag = ""

theorem addTagged_lists (h : addTagged {} tag j = .ok e) : Lists tag e := by
  have hok {α : Type} {x : Decode.Decoded α} {put : α → Document} (h : x.map put = .ok e) : ∃ v, put v = e := by
    cases x with
    | error f => cases h
    | ok v => exact ⟨v, Except.ok.inj h⟩
  unfold addTagged at h
  split at h <;> obtain ⟨v, rfl⟩ := hok h <;> constructor <;> simp [size, elementCount, kindOf, coreTags]
  -- Only the elements that are kept whole are left.
  tauto

theorem single?_eq_some (h : single? j = some e) : ∃ tag, addTagged {} tag j = .ok e ∧ kind? j = some (kindOf tag) := by
  unfold single? addElement at h
  unfold kind?
  cases htag : tagOf j with
  | error f =>
    rw [htag] at h
    cases h
  | ok tag =>
    rw [htag] at h
    dsimp only at h ⊢
    split at h
    · cases h
    · rename_i hne
      rw [if_neg hne]
      refine ⟨tag, ?_, rfl⟩
      cases hadd : addTagged {} tag j with
      | error f =>
        rw [hadd] at h
        cases h
      | ok e' =>
        rw [hadd] at h
        cases h
        rfl

/-! ### All elements -/

theorem addElements_eq (js : List Json) : ∀ (d : Document) (i : Nat), (addElements d i js).toOption =
    if js.all (fun j => (single? j).isSome) then some ((js.filterMap single?).foldl append d) else none := by
  induction js with
  | nil => exact fun _ _ => rfl
  | cons j js ih =>
    intro d i
    have hadd := addElement_eq d i j
    unfold addElements
    cases hj : single? j with
    | none =>
      rw [hj] at hadd
      cases hd : addElement d i j with
      | error f => simp [hj, Except.toOption]
      | ok d' =>
        rw [hd] at hadd
        cases hadd
    | some e =>
      rw [hj] at hadd
      cases hd : addElement d i j with
      | error f =>
        rw [hd] at hadd
        cases hadd
      | ok d' =>
        rw [hd] at hadd
        cases hadd
        simp [ih, hj]

/-- **A document is what its elements make, put together.** -/
theorem read_eq {text : String} {o : Outline} (h : outline? text = some o) : (read text).toOption =
    if o.elements.all (fun j => (single? j).isSome) then
      some ((o.elements.filterMap single?).foldl append { tag := o.tag })
    else none := by
  obtain ⟨j, hj, ho⟩ := Option.bind_eq_some_iff.1 h
  unfold read ofJson
  rw [hj]
  dsimp only
  cases hdecode : Outline.decoder.decode j with
  | error f =>
    rw [hdecode] at ho
    cases ho
  | ok o' =>
    rw [hdecode] at ho
    cases ho
    exact addElements_eq _ _ _

theorem foldl_append_field {β : Type} (F : Document → List β) (hF : ∀ d e, F (append d e) = F d ++ F e)
    (es : List Document) (d : Document) : F (es.foldl append d) = F d ++ es.flatMap F := by
  induction es generalizing d with
  | nil => simp
  | cons e es ih => rw [foldl_cons, ih, hF, flatMap_cons, append_assoc]

theorem foldl_append_tag (es : List Document) (d : Document) : (es.foldl append d).tag = d.tag := by
  induction es generalizing d with
  | nil => rfl
  | cons e es ih => exact ih (append d e)

theorem size_append (d e : Document) : (append d e).size = d.size + e.size := by
  simp only [size, elementCount, append, length_append]
  omega

theorem size_foldl_append (es : List Document) (h : ∀ e ∈ es, e.size = 1) (d : Document) :
    (es.foldl append d).size = d.size + es.length := by
  induction es generalizing d with
  | nil => rfl
  | cons e es ih =>
    obtain ⟨he, hes⟩ := forall_mem_cons.1 h
    rw [foldl_cons, ih hes, size_append, length_cons]
    omega

theorem flatMap_kind {β : Type} {F : Document → List β} {k : String}
    (hF : ∀ tag j e, addTagged {} tag j = .ok e → F e ≠ [] → kindOf tag = k) (js : List Json) :
    (js.filterMap single?).flatMap F = ((js.filter fun j => kind? j = some k).filterMap single?).flatMap F := by
  induction js with
  | nil => rfl
  | cons j js ih =>
    by_cases hk : kind? j = some k
    · cases hj : single? j with
      | none => simp [hj, hk, ih]
      | some e => simp [hj, hk, ih]
    · cases hj : single? j with
      | none => simp [hj, hk, ih]
      | some e =>
        obtain ⟨tag, hadd, hkind⟩ := single?_eq_some hj
        have hnil : F e = [] := by
          by_contra hne
          exact hk (hkind.trans (congrArg some (hF tag j e hadd hne)))
        simp [hj, hk, hnil, ih]

/-- **Elements that stand in the same order within each kind make the same document.** -/
theorem foldl_append_eq (d : Document)
    (h : ∀ k, (js.filter fun j => kind? j = some k) = js'.filter fun j => kind? j = some k) :
    (js.filterMap single?).foldl append d = (js'.filterMap single?).foldl append d := by
  have same {β : Type} (F : Document → List β) (k : String) (hF : ∀ d e, F (append d e) = F d ++ F e)
      (hk : ∀ tag j e, addTagged {} tag j = .ok e → F e ≠ [] → kindOf tag = k) :
      F ((js.filterMap single?).foldl append d) = F ((js'.filterMap single?).foldl append d) := by
    rw [foldl_append_field F hF, foldl_append_field F hF, flatMap_kind hk js, flatMap_kind hk js', h k]
  have htag := (foldl_append_tag (js.filterMap single?) d).trans (foldl_append_tag (js'.filterMap single?) d).symm
  exact (mk.injEq ..).mpr ⟨htag,
    same sections _ (fun _ _ => rfl) fun _ _ _ h => (addTagged_lists h).sections,
    same profiles _ (fun _ _ => rfl) fun _ _ _ h => (addTagged_lists h).profiles,
    same classes _ (fun _ _ => rfl) fun _ _ _ h => (addTagged_lists h).classes,
    same enumerations _ (fun _ _ => rfl) fun _ _ _ h => (addTagged_lists h).enumerations,
    same associations _ (fun _ _ => rfl) fun _ _ _ h => (addTagged_lists h).associations,
    same functions _ (fun _ _ => rfl) fun _ _ _ h => (addTagged_lists h).functions,
    same measures _ (fun _ _ => rfl) fun _ _ _ h => (addTagged_lists h).measures,
    same mappings _ (fun _ _ => rfl) fun _ _ _ h => (addTagged_lists h).mappings,
    same connections _ (fun _ _ => rfl) fun _ _ _ h => (addTagged_lists h).connections,
    same runtimes _ (fun _ _ => rfl) fun _ _ _ h => (addTagged_lists h).runtimes,
    same extensions _ (fun _ _ => rfl) fun _ _ _ h => (addTagged_lists h).extensions⟩

/-! ### Texts -/

/-- **How kinds are mixed is irrelevant.** Two texts with the same tag, whose elements are the same and stand
in the same order within each kind, are both no documents or are the same document, and the same comes of
building it. A document has as many sections and elements as the text has elements. -/
theorem read_interleaved {text text' : String} {o o' : Outline} (ho : outline? text = some o)
    (ho' : outline? text' = some o') (htag : o.tag = o'.tag) (hperm : o.elements.Perm o'.elements)
    (hkinds : ∀ k, (o.elements.filter fun j => kind? j = some k) = o'.elements.filter fun j => kind? j = some k) :
    (read text).toOption = (read text').toOption ∧
    (∀ options, (read text).toOption.map (build · options) = (read text').toOption.map (build · options)) ∧
    ∀ d, read text = .ok d → d.sections.length + d.elementCount = o.elements.length := by
  have hsame : (read text).toOption = (read text').toOption := by
    rw [read_eq ho, read_eq ho', hperm.all_eq, htag, foldl_append_eq _ hkinds]
  refine ⟨hsame, fun options => by rw [hsame], fun d hd => ?_⟩
  have hread := read_eq ho
  rw [hd] at hread
  split at hread
  · rename_i hall
    cases hread
    have hsize := size_foldl_append (o.elements.filterMap single?) (fun e he => ?_) { tag := o.tag }
    · rw [length_filterMap_eq_countP, countP_eq_length.2 (by simpa using hall)] at hsize
      exact hsize.trans (Nat.zero_add _)
    · obtain ⟨j, -, hj⟩ := mem_filterMap.1 he
      obtain ⟨tag, hadd, -⟩ := single?_eq_some hj
      exact (addTagged_lists hadd).size
  · cases hread

def elementOf (tag name : String) : Json := .ofObject [("_type", .ofString tag), ("name", .ofString name)]

def textOf (elements : List Json) : String :=
  (Json.ofObject [("_type", .ofString "data"), ("elements", .ofArray elements)]).text

/-- Whether the text is read as it was written. -/
def isRead (elements : List Json) : Bool :=
  (outline? (textOf elements)).any fun o => o.tag = "data" && Json.sameItems o.elements elements

theorem outline?_of_isRead {elements : List Json} (h : isRead elements = true) :
    outline? (textOf elements) = some { tag := "data", elements } := by
  obtain ⟨o, ho, hsame⟩ := (Option.any_eq_true _ _).1 h
  obtain ⟨tag, found⟩ := o
  simp only [and_eq_true, decide_eq_true_eq] at hsame
  rw [ho, hsame.1, Json.eq_of_sameItems hsame.2]

/-- Two profiles with an element between them that is not known here. -/
def mixedElements : List Json := [elementOf "profile" "P", elementOf "x" "E", elementOf "profile" "Q"]

def sortedElements : List Json := [elementOf "x" "E", elementOf "profile" "P", elementOf "profile" "Q"]

theorem read_mixedElements : ∃ d, read (textOf mixedElements) = .ok d ∧ read (textOf sortedElements) = .ok d ∧
    d.sections.length + d.elementCount = 3 := by
  have hP : kind? (elementOf "profile" "P") = some "profile" := by decide +kernel
  have hE : kind? (elementOf "x" "E") = some "" := by decide +kernel
  have hkinds (k : String) : (mixedElements.filter fun j => kind? j = some k) =
      sortedElements.filter fun j => kind? j = some k := by
    simp only [mixedElements, sortedElements, filter_cons, hP, hE]
    by_cases hk : k = ""
    · simp [hk]
    · simp [Ne.symm hk]
  have hmixed : isRead mixedElements = true := by decide +kernel
  have hsorted : isRead sortedElements = true := by decide +kernel
  obtain ⟨hsame, -, hcount⟩ := read_interleaved (outline?_of_isRead hmixed) (outline?_of_isRead hsorted) rfl
    (.swap _ _ _) hkinds
  have hread : (read (textOf mixedElements)).toOption.isSome = true := by decide +kernel
  rcases hd : read (textOf mixedElements) with f | d <;> rw [hd] at hread hsame
  · cases hread
  · refine ⟨d, rfl, ?_, hcount d hd⟩
    rcases hd' : read (textOf sortedElements) with f | d' <;> rw [hd'] at hsame <;> cases hsame
    rfl

end Document
end ModelGraph

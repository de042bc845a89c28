/-
# Nodes survive being written

What a node is decoded to is not just any node: its numbers fit in a word, its values are nodes or literals
as its tag says, and it is no class instance around a graph fetch tree. Such a node is written as an object
with one member for each field that says something, and is decoded from it again.

Key definitions: `TypeExpr.Fits`, `Node.Settled`.
Key theorems: `Node.settled_of_decode`, `Node.decode_encode`, `Node.decode_survives`.
-/
import Mathlib.Logic.Relation
import ModelGraph.Document.Node
import ModelGraph.Proofs.Json.Decode

namespace ModelGraph

open List Decode Decoder

open Decode (Slot Keyed Fills valuesOf)

/-! ### Parts of nodes -/

theorem Number.fitsWord_of_word? {text : String} {n : Int} (h : word? text = some n) : fitsWord n = true := by
  unfold word? at h
  split at h
  · obtain ⟨hfits, h⟩ := Option.ite_none_right_eq_some.1 h
    exact Option.some.inj h ▸ hfits
  · cases h

theorem Decoder.integer_fits (js : List Json) : Number.fitsWord (integer.build js) = true := by
  unfold integer plain
  dsimp only
  cases hn : js.reverse.findSome? _ with
  | none => decide
  | some n =>
    obtain ⟨j, -, hj⟩ := exists_of_findSome?_eq_some hn
    split at hj
    · exact Number.fitsWord_of_word? hj
    · cases hj

namespace Decode

variable {α : Type} {ms : List (String × Json)} {name : String} {x : α} {n : Node} {a : NodeAttrs}

theorem places_text {put : String → α → α} (v : String)
    (h : valuesOf name ms = if v = "" then [] else [.ofString v]) (hx : put "" x = x) : Places ms (.text name put) x (put v x) :=
  places_unless (v = "") h (fun hv => hv ▸ hx) fun _ => text_reads v

theorem places_integer {put : Int → α → α} {n : Int} (hn : Number.fitsWord n = true)
    (h : valuesOf name ms = if n = 0 then [] else [.ofInt n]) (hx : put 0 x = x) :
    Places ms (.integer name put) x (put n x) :=
  places_unless (n = 0) h (fun hn => hn ▸ hx) fun _ => integer_reads hn

end Decode

/-- The numbers of a span fit in a word. -/
structure Span.Fits (s : Span) : Prop where
  startLine : Number.fitsWord s.startLine = true
  startColumn : Number.fitsWord s.startColumn = true
  endLine : Number.fitsWord s.endLine = true
  endColumn : Number.fitsWord s.endColumn = true

namespace Span

theorem decoder_fits (js : List Json) : (decoder.build js).Fits := by
  refine fill_keeps _ ⟨rfl, rfl, rfl, rfl⟩ ?_
  simp only [fields, forall_mem_cons]
  refine ⟨fun _ _ h => ⟨h.1, h.2, h.3, h.4⟩, fun js _ h => ⟨integer_fits js, h.2, h.3, h.4⟩,
    fun js _ h => ⟨h.1, integer_fits js, h.3, h.4⟩, fun js _ h => ⟨h.1, h.2, integer_fits js, h.4⟩,
    fun js _ h => ⟨h.1, h.2, h.3, integer_fits js⟩, forall_mem_nil _⟩

theorem members_eq (s : Span) : s.members =
    (if s.sourceId = "" then [] else [("sourceId", .ofString s.sourceId)]) ++
    ((if s.startLine = 0 then [] else [("startLine", .ofInt s.startLine)]) ++
    ((if s.startColumn = 0 then [] else [("startColumn", .ofInt s.startColumn)]) ++
    ((if s.endLine = 0 then [] else [("endLine", .ofInt s.endLine)]) ++
    (if s.endColumn = 0 then [] else [("endColumn", .ofInt s.endColumn)])))) := by
  unfold members
  by_cases h₁ : s.startLine = 0 <;> by_cases h₂ : s.startColumn = 0 <;> by_cases h₃ : s.endLine = 0 <;>
    by_cases h₄ : s.endColumn = 0 <;> simp [h₁, h₂, h₃, h₄]

theorem encode_reads {s : Span} (h : s.Fits) : decoder.Reads s.encode s := by
  have hkeys : Keyed (fields.map (·.name)) fields s.members := by
    refine ⟨by decide, List.Sublist.refl _, ?_⟩
    rw [members_eq]
    simp only [forall_mem_append, forall_mem_unless]
    and_intros <;> exact fun _ => by decide
  exact Fills.reads hkeys
    (.cons (places_text s.sourceId (by simp [members_eq]) rfl)
    (.cons (places_integer h.startLine (by simp [members_eq]) rfl)
    (.cons (places_integer h.startColumn (by simp [members_eq]) rfl)
    (.cons (places_integer h.endLine (by simp [members_eq]) rfl)
    (.cons (places_integer h.endColumn (by simp [members_eq]) rfl) (.nil s))))))

end Span

/-- The numbers of bounds fit in a word. -/
structure Bounds.Fits (b : Bounds) : Prop where
  lower : Number.fitsWord b.lower = true
  upper : ∀ n ∈ b.upper, Number.fitsWord n = true

namespace Decoder

theorem optional_keeps {β : Type} {d : Decoder β} {P : β → Prop} (h : ∀ js, P (d.build js)) (js : List Json) :
    ∀ b ∈ d.optional.build js, P b := by
  intro b hb
  unfold optional at hb
  dsimp only at hb
  split at hb
  · cases hb
  · cases hb
    exact h _

end Decoder

namespace Bounds

theorem decoder_fits (js : List Json) : (decoder.build js).Fits := by
  refine fill_keeps _ ⟨rfl, nofun⟩ ?_
  simp only [fields, forall_mem_cons]
  exact ⟨fun js _ h => ⟨integer_fits js, h.2⟩,
    fun js _ h => ⟨h.1, optional_keeps integer_fits js⟩, forall_mem_nil _⟩

theorem encode_reads {b : Bounds} (h : b.Fits) : decoder.Reads b.encode b := by
  have hmembers : b.encode = .ofObject (("lowerBound", .ofInt b.lower) ::
      Node.optionMember "upperBound" (b.upper.map .ofInt)) := by
    unfold encode
    cases b.upper with
    | none => rfl
    | some n => rfl
  rw [hmembers]
  refine Fills.reads ⟨(by decide : ((fields.map (·.name)).map foldKey).Nodup), List.Sublist.refl _, ?_⟩
    (.cons (places_field (by simp) (integer_reads h.lower))
    (.cons (places_option (by simp) (fun hn => by rw [hn])
      fun n hn => ⟨integer_reads (h.upper n hn), rfl⟩) (.nil b)))
  simp only [forall_mem_cons, forall_mem_option]
  exact ⟨by decide, fun _ _ => by decide⟩

end Bounds

namespace RawTypeExpr

theorem decoder_fits (js : List Json) : (decoder.build js).span.Fits := by
  refine fill_keeps (P := fun t : RawTypeExpr => t.span.Fits) _ ⟨rfl, rfl, rfl, rfl⟩ ?_
  simp only [fields, forall_mem_cons]
  exact ⟨fun _ _ h => h, fun _ _ h => h, fun js _ _ => Span.decoder_fits js, forall_mem_nil _⟩

theorem encode_reads {t : RawTypeExpr} (h : t.span.Fits) : decoder.Reads t.encode t := by
  refine Fills.reads ⟨(by decide : ((fields.map (·.name)).map foldKey).Nodup), List.Sublist.refl _, ?_⟩
    (.cons (places_text t.tag (by simp) rfl)
    (.cons (places_field (by simp) (text_reads t.path))
    (.cons (places_field (by simp) (Span.encode_reads h)) (.nil t))))
  simp only [forall_mem_append, forall_mem_unless, forall_mem_cons]
  exact ⟨fun _ => by decide, by decide, by decide, forall_mem_nil _⟩

end RawTypeExpr

namespace TypeExpr

/-- The numbers in a type expression fit in a word. -/
inductive Fits : TypeExpr → Prop
  | mk {raw : RawTypeExpr} {args : List TypeExpr} {span : Span} : raw.span.Fits → span.Fits →
      (∀ t ∈ args, Fits t) → Fits (.mk raw args span)

theorem decoderTo_fits : ∀ (n : Nat) (js : List Json), ((decoderTo n).build js).Fits
  | 0, js => .mk ⟨rfl, rfl, rfl, rfl⟩ ⟨rfl, rfl, rfl, rfl⟩ (forall_mem_nil _)
  | n + 1, js => by
    refine fill_keeps _ (.mk ⟨rfl, rfl, rfl, rfl⟩ ⟨rfl, rfl, rfl, rfl⟩ (forall_mem_nil _)) ?_
    simp only [fields, forall_mem_cons]
    refine ⟨?_, ?_, ?_, forall_mem_nil _⟩ <;> rintro js _ ⟨hraw, hspan, hargs⟩
    · exact .mk (RawTypeExpr.decoder_fits js) hspan hargs
    · refine .mk hraw hspan fun t ht => ?_
      obtain ⟨js, -, rfl⟩ := mem_map.1 ht
      exact decoderTo_fits n js
    · exact .mk hraw (Span.decoder_fits js) hargs

theorem decoder_fits (js : List Json) : (decoder.build js).Fits := by
  exact decoderTo_fits (Json.depths js + 1) js

theorem encodeAll_eq (ts : List TypeExpr) : encodeAll ts = ts.map encode := by
  induction ts with
  | nil => rw [encodeAll, map_nil]
  | cons t ts ih => rw [encodeAll, ih, map_cons]

mutual

theorem decoderTo_reads : ∀ t : TypeExpr, t.Fits → ∀ n, t.encode.depth < n → (decoderTo n).Reads t.encode t
  | .mk raw args span, .mk hraw hspan hargs, 0, hn => absurd hn (Nat.not_lt_zero _)
  | .mk raw args span, .mk hraw hspan hargs, n + 1, hn => by
    rw [encode] at hn ⊢
    have hread := decoderTo_readsAll args hargs n
    rw [encodeAll_eq] at hn ⊢
    refine Fills.reads ⟨(by decide : (["rawType", "typeArguments", "sourceInformation"].map foldKey).Nodup),
        List.Sublist.refl _, ?_⟩
      (.cons (places_field (by simp) (RawTypeExpr.encode_reads hraw))
      (.cons (places_unless (args.isEmpty = true) (by simp) (fun h => by rw [List.isEmpty_iff.1 h]; rfl)
        fun h => list_reads (hread ?_))
      (.cons (places_field (by simp) (Span.encode_reads hspan)) (.nil _))))
    · simp only [forall_mem_append, forall_mem_unless, forall_mem_singleton]
      exact ⟨⟨by decide, fun _ => by decide⟩, by decide⟩
    · have hmember := Json.depth_le_memberDepths
        (show ("typeArguments", Json.ofArray (args.map encode)) ∈ [("rawType", raw.encode)] ++
          (if args.isEmpty then [] else [("typeArguments", .ofArray (args.map encode))]) ++
          [("sourceInformation", span.encode)] by simp [h])
      have harray : (Json.ofArray (args.map encode)).depth = Json.depths (args.map encode) + 1 := by
        rw [Json.ofArray, Json.depth]
      rw [Json.ofObject, Json.depth] at hn
      dsimp only at hmember
      omega

theorem decoderTo_readsAll : ∀ ts : List TypeExpr, (∀ t ∈ ts, t.Fits) → ∀ n, Json.depths (ts.map encode) < n →
    ∀ t ∈ ts, (decoderTo n).Reads t.encode t
  | [], _, _, _ => forall_mem_nil _
  | t :: ts, h, n, hn => by
    obtain ⟨ht, hts⟩ := forall_mem_cons.1 h
    rw [map_cons, Json.depths, Nat.max_lt] at hn
    exact forall_mem_cons.2 ⟨decoderTo_reads t ht n hn.1, decoderTo_readsAll ts hts n hn.2⟩

end

theorem encode_reads {t : TypeExpr} (h : t.Fits) : decoder.Reads t.encode t := by
  obtain ⟨hcheck, hbuild⟩ := decoderTo_reads t h (t.encode.depth + 1) (Nat.lt_succ_self _)
  refine ⟨hcheck, ?_⟩
  have hdepth : Json.depths [t.encode] = t.encode.depth := by rw [Json.depths, Json.depths, Nat.max_zero]
  show (decoderTo (Json.depths [t.encode] + 1)).build [t.encode] = t
  rw [hdepth, hbuild]

theorem isNull_encode (t : TypeExpr) : isNull t.encode = false := by
  cases t
  rfl

end TypeExpr

/-! ### Settled nodes -/

/-- The numbers among the attributes of a node fit in a word. -/
structure NodeAttrs.Fits (a : NodeAttrs) : Prop where
  span : a.span.Fits
  bounds : ∀ b ∈ a.bounds, b.Fits
  typeExpr : ∀ t ∈ a.typeExpr, t.Fits

namespace Node

/-- The node is a class instance around a graph fetch tree. -/
def IsEnvelope (a : NodeAttrs) : Prop := a.tag = classInstanceTag ∧ isTreeTag a.instanceType = true

def children (n : Node) : List Node := n.parameters ++ n.body ++ n.values ++ n.subTrees

inductive Settled : Node → Prop
  | mk {a : NodeAttrs} {ps body values ts : List Node} : a.Fits → ¬ IsEnvelope a →
      (a.tag = collectionTag → a.literals = []) → (a.tag ≠ collectionTag → values = []) →
      (∀ n ∈ ps ++ body ++ values ++ ts, Settled n) → Settled (.mk a ps body values ts)

structure Draft.Settled (d : Draft) : Prop where
  parameters : ∀ n ∈ d.parameters, n.Settled
  body : ∀ n ∈ d.body, n.Settled
  subTrees : ∀ n ∈ d.subTrees, n.Settled
  items : ∀ ns, d.items = .ok ns → ∀ n ∈ ns, n.Settled
  payload : ∀ n, d.payload = .ok n → n.Settled

theorem fill_fits (ms : List (String × Json)) : (fill fields ms {}).Fits := by
  refine fill_keeps ms ⟨⟨rfl, rfl, rfl, rfl⟩, nofun, nofun⟩ ?_
  simp only [fields, forall_mem_cons]
  and_intros
  · exact fun _ _ h => ⟨h.1, h.2, h.3⟩
  · exact fun js _ h => ⟨Span.decoder_fits js, h.2, h.3⟩
  · exact fun js _ h => ⟨h.1, optional_keeps Bounds.decoder_fits js, h.3⟩
  iterate 3 exact fun _ _ h => ⟨h.1, h.2, h.3⟩
  · exact fun js _ h => ⟨h.1, h.2, optional_keeps TypeExpr.decoder_fits js⟩
  iterate 7 exact fun _ _ h => ⟨h.1, h.2, h.3⟩
  exact forall_mem_nil _

section

variable {a : NodeAttrs} {d : Draft}

theorem ofDraft_collection (hc : a.tag = collectionTag) : ofDraft a d =
    (inside "collection values: " d.items).map fun items =>
      mk { a with literals := [] } d.parameters d.body items d.subTrees := by
  have hbare : (decide (a.tag = classInstanceTag) && isTreeTag a.instanceType) = false := by
    rw [hc]
    rfl
  unfold ofDraft
  rw [if_pos hc]
  cases inside "collection values: " d.items with
  | error f => rfl
  | ok items =>
    dsimp only [bind, Except.bind]
    rw [if_pos hc, hbare]
    rfl

theorem ofDraft_plain (hc : a.tag ≠ collectionTag) (he : ¬ IsEnvelope a) : ofDraft a d =
    (inside (a.tag ++ " values: ") d.literals).map fun literals =>
      mk { a with literals } d.parameters d.body [] d.subTrees := by
  have hbare : (decide (a.tag = classInstanceTag) && isTreeTag a.instanceType) = false := by
    simpa [IsEnvelope] using he
  unfold ofDraft
  dsimp only [bind, Except.bind]
  rw [if_neg hc, if_neg hc]
  cases inside (a.tag ++ " values: ") d.literals with
  | error f => rfl
  | ok literals =>
    rw [hbare]
    rfl

/-- The payload of a class instance takes the tag and the span that it has not. -/
def unwrap (tag : String) (span : Span) : Node → Node
  | mk a ps body values ts =>
    mk { a with tag := if a.tag = "" then tag else a.tag, span := a.span.orElse span } ps body values ts

theorem ofDraft_envelope (he : IsEnvelope a) (h : ofDraft a d = .ok n) :
    ∃ inner, d.payload = .ok inner ∧ n = unwrap a.instanceType a.span inner := by
  have hc : a.tag ≠ collectionTag := fun hc => absurd (hc.symm.trans he.1) (by decide)
  unfold ofDraft at h
  dsimp only [bind, Except.bind] at h
  rw [if_neg hc, if_neg hc] at h
  cases hl : inside (a.tag ++ " values: ") d.literals with
  | error f =>
    rw [hl] at h
    cases h
  | ok literals =>
    rw [hl] at h
    dsimp only at h
    rw [if_pos (by simpa [IsEnvelope] using he)] at h
    cases hp : d.payload with
    | error f =>
      rw [hp] at h
      cases h
    | ok inner =>
      rw [hp] at h
      cases inner
      cases h
      exact ⟨_, rfl, rfl⟩

end

theorem unwrap_settled {tag : String} {span : Span} (htag : isTreeTag tag = true) (hspan : span.Fits)
    (hn : n.Settled) : (unwrap tag span n).Settled := by
  have htree : tag ≠ classInstanceTag ∧ tag ≠ collectionTag := by
    constructor <;> rintro rfl <;> exact absurd htag (by decide)
  cases hn with
  | @mk a ps body values ts hfits hbare hlit hvalues hsub =>
    have hspans : (a.span.orElse span).Fits := by
      unfold Span.orElse
      split
      · exact hfits.span
      · exact hspan
    by_cases hempty : a.tag = ""
    · refine .mk ⟨hspans, hfits.2, hfits.3⟩ ?_ ?_ (fun _ => hvalues (by rw [hempty]; decide)) hsub
      · exact fun h => htree.1 ((if_pos hempty).symm.trans h.1)
      · exact fun h => absurd ((if_pos hempty).symm.trans h) htree.2
    · have hif : (if a.tag = "" then tag else a.tag) = a.tag := if_neg hempty
      refine .mk ⟨hspans, hfits.2, hfits.3⟩ ?_ ?_ ?_ hsub <;> dsimp only [IsEnvelope] <;> rw [hif]
      · exact hbare
      · exact hlit
      · exact hvalues

theorem ofDraft_settled {d : Draft} (ha : a.Fits) (hd : d.Settled) (h : ofDraft a d = .ok n) : n.Settled := by
  have hchildren {items : List Node} (hitems : ∀ n ∈ items, n.Settled) :
      ∀ n ∈ d.parameters ++ d.body ++ items ++ d.subTrees, n.Settled := by
    simp only [forall_mem_append]
    exact ⟨⟨⟨hd.parameters, hd.body⟩, hitems⟩, hd.subTrees⟩
  by_cases hc : a.tag = collectionTag
  · rw [ofDraft_collection hc] at h
    cases hitems : d.items with
    | error f =>
      rw [hitems] at h
      cases h
    | ok items =>
      rw [hitems] at h
      cases h
      exact .mk ⟨ha.1, ha.2, ha.3⟩ (fun he => absurd (hc.symm.trans he.1) (by decide)) (fun _ => rfl) (absurd hc)
        (hchildren (hd.items items hitems))
  · by_cases he : IsEnvelope a
    · obtain ⟨inner, hpayload, rfl⟩ := ofDraft_envelope he h
      exact unwrap_settled he.2 ha.span (hd.payload inner hpayload)
    · rw [ofDraft_plain hc he] at h
      cases hliterals : d.literals with
      | error f =>
        rw [hliterals] at h
        cases h
      | ok literals =>
        rw [hliterals] at h
        cases h
        exact .mk ⟨ha.1, ha.2, ha.3⟩ he (absurd · hc) (fun _ => rfl) (hchildren (forall_mem_nil _))

mutual

/-- **A node that is decoded is settled.** -/
theorem settled_of_decode : ∀ (j : Json) (n : Node), decode j = .ok n → n.Settled
  | .null, n, h => by
    cases h
    exact .mk ⟨⟨rfl, rfl, rfl, rfl⟩, nofun, nofun⟩ (fun h => absurd h.1 (by decide)) (fun _ => rfl) (fun _ => rfl)
      (forall_mem_nil _)
  | .object _ ms, n, h => by
    rw [decode] at h
    cases hd : decodeMembers ms {} false with
    | error f =>
      rw [hd] at h
      cases h
    | ok d =>
      rw [hd] at h
      have hempty : Draft.Settled {} := ⟨forall_mem_nil _, forall_mem_nil _, forall_mem_nil _,
        by rintro _ ⟨⟩; exact forall_mem_nil _, nofun⟩
      exact ofDraft_settled (fill_fits ms) (settled_of_decodeMembers ms hd hempty) h
  | .bool _, _, h => by cases h
  | .number _, _, h => by cases h
  | .string _ _, _, h => by cases h
  | .array _ _, _, h => by cases h

theorem settled_of_decodeMembers : ∀ (ms : List (String × Json)) {d d' : Draft} {missed : Bool},
    decodeMembers ms d missed = .ok d' → d.Settled → d'.Settled
  | [], d, d', missed, h, hd => by
    rw [decodeMembers] at h
    split at h <;> cases h
    exact hd
  | (key, value) :: ms, d, d', missed, h, hd => by
    rw [decodeMembers] at h
    split at h
    · exact settled_of_decodeMembers ms h { hd with payload := settled_of_decode value }
    · exact settled_of_decodeMembers ms h { hd with items := settled_of_decodeList value }
    · split at h
      · rename_i nodes hnodes
        have hsettled := settled_of_decodeList value nodes hnodes
        split at h
        · exact settled_of_decodeMembers ms h { hd with parameters := hsettled }
        · exact settled_of_decodeMembers ms h { hd with body := hsettled }
        · exact settled_of_decodeMembers ms h { hd with subTrees := hsettled }
      · exact settled_of_decodeMembers ms h hd
      · cases h
    · split at h
      · exact settled_of_decodeMembers ms h hd
      · exact settled_of_decodeMembers ms h hd
      · cases h

theorem settled_of_decodeList : ∀ (j : Json) (ns : List Node), decodeList j = .ok ns → ∀ n ∈ ns, n.Settled
  | .null, ns, h => by
    cases h
    exact forall_mem_nil _
  | .array _ items, ns, h => by
    rw [decodeList] at h
    exact settled_of_decodeItems items ns h
  | .bool _, _, h => by cases h
  | .number _, _, h => by cases h
  | .string _ _, _, h => by cases h
  | .object _ _, _, h => by cases h

theorem settled_of_decodeItems : ∀ (js : List Json) (ns : List Node), decodeItems js = .ok ns → ∀ n ∈ ns, n.Settled
  | [], ns, h => by
    cases h
    exact forall_mem_nil _
  | j :: js, ns, h => by
    rw [decodeItems] at h
    split at h
    · rename_i n hn
      cases hrest : decodeItems js with
      | error f =>
        rw [hrest] at h
        cases h
      | ok rest =>
        rw [hrest] at h
        cases h
        exact forall_mem_cons.2 ⟨settled_of_decode j n hn, settled_of_decodeItems js rest hrest⟩
    · cases h

end

/-! ### Written nodes -/

/-- The members for attributes, as they stand between those for values and nodes. -/
@[simp] def leadMembers (a : NodeAttrs) : List (String × Json) :=
  [("_type", .ofString a.tag), ("sourceInformation", a.span.encode)] ++
    optionMember "multiplicity" (a.bounds.map Bounds.encode)

@[simp, inherit_doc leadMembers]
def nameMembers (a : NodeAttrs) : List (String × Json) :=
  textMember "name" a.name ++ textMember "class" a.className ++
    optionMember "genericType" (a.typeExpr.map TypeExpr.encode) ++ textMember "function" a.function ++
    textMember "fControl" a.control ++ textMember "property" a.property

@[simp, inherit_doc leadMembers]
def treeMembers (a : NodeAttrs) : List (String × Json) :=
  textMember "subType" a.subType ++ textMember "alias" a.aliasName ++ textMember "type" a.instanceType

/-- The members that a node is written with, once the nodes below it are. -/
@[simp] def written (a : NodeAttrs) (ps body values ts : List Json) : List (String × Json) :=
  leadMembers a ++ (optionMember "value" a.value ++ (nameMembers a ++ (listMember "parameters" ps ++
    (listMember "body" body ++ (textMember "fullPath" a.path ++ (listMember "subTrees" ts ++ (treeMembers a ++
    listMember "values" values)))))))

section

variable {a : NodeAttrs} {ps body values ts : List Json}

@[simp] theorem valuesOf_textMember (name key v : String) :
    valuesOf name (textMember key v) = if key = name then if v = "" then [] else [.ofString v] else [] :=
  valuesOf_unless ..

@[simp] theorem valuesOf_listMember (name key : String) (js : List Json) :
    valuesOf name (listMember key js) = if key = name then if js.isEmpty then [] else [.ofArray js] else [] :=
  valuesOf_unless ..

theorem keyed_written : Keyed (fields.map (·.name) ++ ["parameters", "body", "subTrees", "values"]) fields
    (written a ps body values ts) := by
  refine ⟨by decide +kernel, sublist_append_left _ _, ?_⟩
  simp only [written, leadMembers, nameMembers, treeMembers, textMember, listMember, forall_mem_append,
    forall_mem_cons, forall_mem_unless, forall_mem_option]
  and_intros <;> first | decide +kernel | exact fun _ => by decide +kernel | exact fun _ _ => by decide +kernel

theorem places_value {x : NodeAttrs} (hx : x.value = none) : Places (written a ps body values ts)
    (.raw "value" fun v x => { x with value := some v }) x { x with value := a.value } := by
  have hvalues : valuesOf "value" (written a ps body values ts) = a.value.toList := by
    simp
  cases hv : a.value with
  | none =>
    have hsame : { x with value := none } = x := by
      cases x
      cases hx
      rfl
    rw [hv] at hvalues
    exact hsame.symm ▸ .absent hvalues
  | some j =>
    rw [hv] at hvalues
    exact .present hvalues rfl

theorem fills_written (h : a.Fits) : Fills (written a ps body values ts) fields {} { a with literals := [] } := by
  refine .cons (places_field (by simp) (text_reads a.tag)) ?_
  refine .cons (places_field (by simp) (Span.encode_reads h.span)) ?_
  refine .cons (places_option (by simp) (fun hn => by rw [hn])
    fun b hb => ⟨Bounds.encode_reads (h.bounds b hb), rfl⟩) ?_
  refine .cons (places_value rfl) ?_
  refine .cons (places_text a.name (by simp) rfl) ?_
  refine .cons (places_text a.className (by simp) rfl) ?_
  dsimp only
  refine .cons (places_option (by simp) (fun hn => by rw [hn])
    fun t ht => ⟨TypeExpr.encode_reads (h.typeExpr t ht), t.isNull_encode⟩) ?_
  refine .cons (places_text a.function (by simp) rfl) ?_
  refine .cons (places_text a.control (by simp) rfl) ?_
  refine .cons (places_text a.property (by simp) rfl) ?_
  refine .cons (places_text a.path (by simp) rfl) ?_
  refine .cons (places_text a.subType (by simp) rfl) ?_
  refine .cons (places_text a.aliasName (by simp) rfl) ?_
  refine .cons (places_text a.instanceType (by simp) rfl) ?_
  exact .nil _

end

section

variable {ms rest : List (String × Json)} {d : Draft} {items : List Json} {nodes : List Node}

theorem decodeMembers_skip (h : ∀ m ∈ ms, branchFor m.1 = none ∧ checkMember fields m = .ok ()) :
    decodeMembers (ms ++ rest) d false = decodeMembers rest d false := by
  induction ms with
  | nil => rfl
  | cons m ms ih =>
    obtain ⟨⟨hbranch, hcheck⟩, hms⟩ := forall_mem_cons.1 h
    rw [cons_append, decodeMembers, hbranch, hcheck]
    exact ih hms

theorem decodeList_ofArray (items : List Json) : decodeList (.ofArray items) = decodeItems items := by
  rw [Json.ofArray, decodeList]

theorem decodeMembers_branch {key : String} (put : List Node → Draft → Draft)
    (hput : ∀ value nodes, decodeList value = .ok nodes →
      decodeMembers ((key, value) :: rest) d false = decodeMembers rest (put nodes d) false)
    (hd : put [] d = d) (h : decodeItems items = .ok nodes) :
    decodeMembers (listMember key items ++ rest) d false = decodeMembers rest (put nodes d) false := by
  cases items with
  | nil =>
    cases h
    rw [hd]
    rfl
  | cons j js => exact hput _ nodes ((decodeList_ofArray (j :: js)).trans h)

theorem decodeMembers_values (hd : d.items = .ok []) (hl : d.literals = .ok []) (items : List Json) :
    decodeMembers (listMember "values" items) d false =
      .ok { d with items := decodeItems items, literals := .ok items } := by
  cases items with
  | nil =>
    cases d
    cases hd
    cases hl
    rfl
  | cons j js =>
    have hbranch : branchFor "values" = some .values := by decide +kernel
    show decodeMembers [("values", .ofArray (j :: js))] d false = _
    rw [decodeMembers]
    rfl

theorem decodeMembers_payload (value : Option Json) : decodeMembers (optionMember "value" value ++ rest) d false =
    decodeMembers rest { d with payload := (value.map decode).getD d.payload } false := by
  cases value with
  | none => rfl
  | some j =>
    have hbranch : branchFor "value" = some .payload := by decide +kernel
    show decodeMembers (("value", j) :: rest) d false = _
    rfl

end

theorem branchFor_plain :
    ∀ m ∈ leadMembers a ++ nameMembers a ++ textMember "fullPath" a.path ++ treeMembers a, branchFor m.1 = none := by
  simp only [leadMembers, nameMembers, treeMembers, textMember, forall_mem_append, forall_mem_cons,
    forall_mem_unless, forall_mem_option]
  and_intros <;> first | decide +kernel | exact fun _ => by decide +kernel | exact fun _ _ => by decide +kernel

theorem decodeMembers_written {ps body ts : List Json} {ps' body' ts' : List Node} (h : a.Fits)
    (values : List Json) (hps : decodeItems ps = .ok ps') (hbody : decodeItems body = .ok body') (hts : decodeItems ts = .ok ts') :
    ∃ payload, decodeMembers (written a ps body values ts) {} false = .ok
      { parameters := ps', body := body', subTrees := ts', items := decodeItems values, literals := .ok values, payload } := by
  have hwritten : Fills (written a ps body values ts) fields {} { a with literals := [] } := fills_written h
  have hplain : ∀ m ∈ leadMembers a ++ nameMembers a ++ textMember "fullPath" a.path ++ treeMembers a,
      branchFor m.1 = none ∧ checkMember fields m = .ok () := by
    intro m hm
    refine ⟨branchFor_plain m hm, hwritten.checkMember_ok keyed_written m ?_⟩
    simp only [written, mem_append] at hm ⊢
    tauto
  simp only [forall_mem_append] at hplain
  obtain ⟨⟨⟨hlead, hname⟩, hpath⟩, htree⟩ := hplain
  have hparameters : branchFor "parameters" = some .parameters := by decide +kernel
  have hbodies : branchFor "body" = some .body := by decide +kernel
  have hsubTrees : branchFor "subTrees" = some .subTrees := by decide +kernel
  refine ⟨(a.value.map decode).getD (.error .mismatch), ?_⟩
  rw [written, decodeMembers_skip hlead, decodeMembers_payload, decodeMembers_skip hname,
    decodeMembers_branch (fun ns d => { d with parameters := ns }) (fun value nodes h => ?_) rfl hps,
    decodeMembers_branch (fun ns d => { d with body := ns }) (fun value nodes h => ?_) rfl hbody,
    decodeMembers_skip hpath,
    decodeMembers_branch (fun ns d => { d with subTrees := ns }) (fun value nodes h => ?_) rfl hts,
    decodeMembers_skip htree, decodeMembers_values rfl rfl]
  · rw [decodeMembers, hsubTrees]
    rw [h]
  · rw [decodeMembers, hbodies]
    rw [h]
  · rw [decodeMembers, hparameters]
    rw [h]

theorem encode_eq (a : NodeAttrs) (ps body values ts : List Node) : encode (mk a ps body values ts) =
    .ofObject (written a (encodeAll ps) (encodeAll body) (if values.isEmpty then a.literals else encodeAll values)
      (encodeAll ts)) := by
  rw [encode]
  simp only [written, nameMembers, treeMembers, append_assoc]
  split <;> rfl

mutual

/-- **A settled node is read as it was written.** -/
theorem decode_encode : ∀ n : Node, n.Settled → decode (encode n) = .ok n
  | .mk a ps body values ts, .mk ha hbare hlit hvalues hsub => by
    simp only [forall_mem_append] at hsub
    obtain ⟨⟨⟨hps, hbody⟩, hitems⟩, hts⟩ := hsub
    rw [encode_eq]
    generalize hwritten : (if values.isEmpty then a.literals else encodeAll values) = vs
    obtain ⟨payload, hdraft⟩ := decodeMembers_written ha vs (decodeItems_encodeAll ps hps)
      (decodeItems_encodeAll body hbody) (decodeItems_encodeAll ts hts)
    have hfill : fill fields (written a (encodeAll ps) (encodeAll body) vs (encodeAll ts)) {} =
      { a with literals := [] } := (fills_written ha).fill_eq keyed_written
    rw [Json.ofObject, decode, hdraft, hfill]
    by_cases hc : a.tag = collectionTag
    · have hread : decodeItems vs = .ok values := by
        rw [← hwritten]
        split
        · rename_i hempty
          rw [hlit hc, List.isEmpty_iff.1 hempty, decodeItems]
        · exact decodeItems_encodeAll values hitems
      have hsame : { a with literals := [] } = a := by rw [← hlit hc]
      refine (ofDraft_collection hc).trans ?_
      rw [hread]
      exact congrArg (fun a => Except.ok (mk a ps body values ts)) hsame
    · rw [hvalues hc] at hwritten ⊢
      cases hwritten
      exact ofDraft_plain hc hbare

theorem decodeItems_encodeAll : ∀ ns : List Node, (∀ n ∈ ns, n.Settled) → decodeItems (encodeAll ns) = .ok ns
  | [], _ => by rw [encodeAll, decodeItems]
  | n :: ns, h => by
    obtain ⟨hn, hns⟩ := forall_mem_cons.1 h
    rw [encodeAll, decodeItems, decode_encode n hn, decodeItems_encodeAll ns hns]
    rfl

end

/-- **Nodes survive being written.** A node that is decoded from any value is decoded again, the same, from
what it is written as; and no node in it, at any depth, is a class instance around a graph fetch tree. -/
theorem decode_survives {j : Json} {n : Node} (h : decode j = .ok n) :
    decode (encode n) = .ok n ∧
    ∀ k, Relation.ReflTransGen (fun n k : Node => k ∈ n.children) n k →
      ¬ (k.attrs.tag = classInstanceTag ∧ isTreeTag k.attrs.instanceType = true) := by
  have hn := settled_of_decode j n h
  refine ⟨decode_encode n hn, fun k hk => ?_⟩
  have hsettled : k.Settled := by
    induction hk with
    | refl => exact hn
    | tail _ hchild ih =>
      cases ih with
      | mk _ _ _ _ hsub => exact hsub _ hchild
  cases hsettled with
  | mk _ hbare => exact hbare

/-- A graph fetch tree in two class instances, of which the inner one has no tag of its own. -/
def wrappedTree : Json :=
  let tree : Json := .ofObject [("class", .ofString "m::A"), ("subTrees", .ofArray
    [.ofObject [("_type", .ofString propertyTreeTag), ("property", .ofString "p"),
      ("parameters", .ofArray [.ofObject [("_type", .ofString "integer"), ("values", .ofArray [.ofInt 1])]])]])]
  let wrap (j : Json) : Json := .ofObject [("_type", .ofString classInstanceTag), ("type", .ofString rootTreeTag), ("value", j),
    ("sourceInformation", .ofObject [("startLine", .ofInt 3)])]
  wrap (wrap tree)

/-- Both are taken off, and the tree takes their tag and span. -/
theorem wrappedTree_survives : ∃ n, decode wrappedTree = .ok n ∧ decode (encode n) = .ok n ∧
    n.attrs.tag = rootTreeTag ∧ n.span.startLine = 3 ∧ n.children.length = 1 := by
  have htest : (decode wrappedTree).toOption.any (fun n => n.attrs.tag = rootTreeTag ∧ n.span.startLine = 3 ∧
    n.children.length = 1) = true := by decide +kernel
  cases hn : decode wrappedTree with
  | error f =>
    rw [hn] at htest
    cases htest
  | ok n =>
    rw [hn] at htest
    exact ⟨n, rfl, (decode_survives hn).1, of_decide_eq_true htest⟩

end Node
end ModelGraph

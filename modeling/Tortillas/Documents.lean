/-
**Documents of a self-describing format, and derived codecs for them.**

A document is a tree of sequences and maps over simple values.  A value of some type is written as a
document and read back by a codec; what is written is read back, and reading may refuse a document.
Codecs of records are derived from the codecs of their fields: a record is written as a map from the
names of its fields, and read by looking up the names, or from a sequence by position.  A field may
have more than one name, and a name that occurs twice is an error.

Main definitions:

* `Doc` — documents;
* `FieldCodec` — a codec, with its round trip; `FieldCodec.seq` — the codec of lists;
* `Doc.find`, `Doc.required`, `Doc.optional`, `Doc.item` — the fields of a record.

Main results:

* `FieldCodec.mapM_de` — a list that is written is read back;
* `FieldCodec.mapM_ok_iff` — a list is read when each of its elements is;
* `Doc.required_of_find` — a field that is found and was written by its codec is read back.
-/

import Mathlib.Data.List.Forall2

set_option relaxedAutoImplicit false
set_option autoImplicit false

namespace Tortillas

/-- A document. -/
inductive Doc
  | null
  | bool (b : Bool)
  | num (n : ℕ)
  | text (t : List Char)
  | seq (items : List Doc)
  | map (entries : List (Doc × Doc))

/-- A codec: what is written is read back. -/
structure FieldCodec (α : Type) where
  ser : α → Doc
  de : Doc → Option α
  round_trip : ∀ a, de (ser a) = some a

namespace FieldCodec

variable {α β : Type}

/-- What is written element by element is read back. -/
theorem mapM_de {ser : α → β} {de : β → Option α} (h : ∀ a, de (ser a) = some a) (l : List α) :
    (l.map ser).mapM de = some l := by
  induction l with
  | nil => rfl
  | cons a l ih => simp [h, ih]

/-- Read the items of a sequence. -/
def deSeq (de : Doc → Option α) : Doc → Option (List α)
  | .seq items => items.mapM de
  | _ => none

/-- A list with an element that is refused is refused. -/
theorem mapM_eq_none_of_mem {de : β → Option α} {l : List β} {b : β} (hb : b ∈ l) (h : de b = none) :
    l.mapM de = none := by
  induction l with
  | nil => cases hb
  | cons first l ih =>
      rw [List.mapM_cons]
      rcases List.mem_cons.1 hb with rfl | hb
      · rw [h]
        rfl
      · rw [ih hb]
        cases de first with
        | none => rfl
        | some a => rfl

/-- A list is read when each of its elements is. -/
theorem mapM_ok_iff {ε : Type} {de : β → Except ε α} {l : List β} {as : List α} :
    l.mapM de = .ok as ↔ List.Forall₂ (fun b a => de b = .ok a) l as := by
  induction l generalizing as with
  | nil => cases as <;> simp [pure, Except.pure]
  | cons b l ih =>
      rw [List.mapM_cons]
      cases hb : de b with
      | error e => cases as <;> simp [hb, bind, Except.bind]
      | ok a =>
          cases hl : l.mapM de with
          | error e =>
              cases as with
              | nil => simp [bind, Except.bind]
              | cons a' as =>
                  have hnot : ¬ List.Forall₂ (fun b a => de b = .ok a) l as := by
                    rw [← ih, hl]
                    intro h
                    cases h
                  simp [bind, Except.bind, hnot]
          | ok as' =>
              cases as with
              | nil => simp [bind, Except.bind, pure, Except.pure]
              | cons a' as => simp [hb, bind, Except.bind, pure, Except.pure, ← ih, hl]

/-- Each element of the one list has a partner in the other. -/
theorem exists_of_forall₂ {R : α → β → Prop} {as : List α} {bs : List β}
    (h : List.Forall₂ R as bs) {a : α} (ha : a ∈ as) : ∃ b ∈ bs, R a b := by
  induction h with
  | nil => cases ha
  | @cons a' b' as bs hab _ ih =>
      rcases List.mem_cons.1 ha with rfl | ha
      · exact ⟨b', List.mem_cons_self .., hab⟩
      · obtain ⟨b, hb, hr⟩ := ih ha
        exact ⟨b, List.mem_cons_of_mem _ hb, hr⟩

/-- The codec of lists. -/
def seq (f : FieldCodec α) : FieldCodec (List α) where
  ser l := .seq (l.map f.ser)
  de := deSeq f.de
  round_trip l := mapM_de f.round_trip l

/-- The codec of a type whose values are given by those of another. -/
def via (f : FieldCodec β) (g : α → β) (back : β → Option α) (h : ∀ a, back (g a) = some a) :
    FieldCodec α where
  ser a := f.ser (g a)
  de d := f.de d >>= back
  round_trip a := by simp [f.round_trip, h]

/-- The codec of pairs. -/
def pair (f : FieldCodec α) (g : FieldCodec β) : FieldCodec (α × β) where
  ser p := .seq [f.ser p.1, g.ser p.2]
  de
    | .seq [x, y] => do some (← f.de x, ← g.de y)
    | _ => none
  round_trip p := by simp [f.round_trip, g.round_trip]

/-- The codec of sums: a record of one field, whose name says which side it is. -/
def either (left right : List Char) (hne : right ≠ left) (f : FieldCodec α) (g : FieldCodec β) :
    FieldCodec (α ⊕ β) where
  ser
    | .inl a => .map [(.text left, f.ser a)]
    | .inr b => .map [(.text right, g.ser b)]
  de
    | .map [(.text t, x)] =>
        if t = left then (f.de x).map .inl else if t = right then (g.de x).map .inr else none
    | _ => none
  round_trip
    | .inl a => by simp [f.round_trip]
    | .inr b => by simp [g.round_trip, hne]

/-- The codec of optional values. -/
def option (f : FieldCodec α) (h : ∀ a, f.ser a ≠ .null) : FieldCodec (Option α) where
  ser
    | none => .null
    | some a => f.ser a
  de
    | .null => some none
    | d => (f.de d).map some
  round_trip
    | none => rfl
    | some a => by
        have hd := f.round_trip a
        have hne := h a
        cases hser : f.ser a <;> simp_all

def number : FieldCodec ℕ where
  ser := .num
  de
    | .num n => some n
    | _ => none
  round_trip _ := rfl

def flag : FieldCodec Bool where
  ser := .bool
  de
    | .bool b => some b
    | _ => none
  round_trip _ := rfl

def text : FieldCodec (List Char) where
  ser := .text
  de
    | .text t => some t
    | _ => none
  round_trip _ := rfl

@[simp] theorem seq_ser (f : FieldCodec α) (l : List α) : f.seq.ser l = .seq (l.map f.ser) := rfl

@[simp] theorem seq_de_map (f : FieldCodec α) (entries : List (Doc × Doc)) :
    f.seq.de (.map entries) = none := rfl

end FieldCodec

namespace Doc

/-- The items of a sequence. -/
def items : Doc → Option (List Doc)
  | .seq items => some items
  | _ => none

/-- A key that is one of the names. -/
def isNamed (names : List (List Char)) : Doc → Bool
  | .text t => names.contains t
  | _ => false

/-- The value of the field with one of the given names, if there is one; more than one is an
error. -/
def find (names : List (List Char)) (entries : List (Doc × Doc)) : Except String (Option Doc) :=
  match entries.filter fun e => isNamed names e.1 with
  | [] => .ok none
  | [e] => .ok (some e.2)
  | _ => .error "duplicate field"

variable {α : Type}

/-- The value of a field that is there. -/
def item (de : Doc → Option α) (d : Doc) : Except String α :=
  match de d with
  | none => .error "invalid value"
  | some a => .ok a

/-- A field that has to be there. -/
def required (names : List (List Char)) (de : Doc → Option α) (entries : List (Doc × Doc)) :
    Except String α :=
  match find names entries with
  | .error e => .error e
  | .ok none => .error "missing field"
  | .ok (some d) => item de d

/-- A field with a value for when it is not there. -/
def optional (names : List (List Char)) (de : Doc → Option α) (default : α)
    (entries : List (Doc × Doc)) : Except String α :=
  match find names entries with
  | .error e => .error e
  | .ok none => .ok default
  | .ok (some d) => item de d

variable (names : List (List Char)) (entries : List (Doc × Doc)) {de : Doc → Option α} {d : Doc}
  {a : α}

theorem required_of_find (h : find names entries = .ok (some d)) (hd : de d = some a) :
    required names de entries = .ok a := by
  simp [required, item, h, hd]

/-- A field whose value is refused is an error. -/
theorem required_of_refused (h : find names entries = .ok (some d)) (hd : de d = none) :
    required names de entries = .error "invalid value" := by
  simp [required, item, h, hd]

theorem optional_of_find (default : α) (h : find names entries = .ok (some d))
    (hd : de d = some a) : optional names de default entries = .ok a := by
  simp [optional, item, h, hd]

end Doc

end Tortillas

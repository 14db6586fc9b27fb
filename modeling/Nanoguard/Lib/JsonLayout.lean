import Nanoguard.Lib.Json

/-!
# The compact layout of JSON values

A value on one line, without blanks, over any alphabet: a `Layout` says how the characters of the
frame, strings, keys and numbers are written. A property of texts that splits at the characters of the
frame holds of a printed value exactly if it holds of its atoms (`print_splits`).
-/

namespace Nanoguard

open List

/-- How values are written over an alphabet `β`. -/
structure Layout (β : Type) where
  chr : Char → β
  /-- a string value between its quotes -/
  str : Text → List β
  /-- a key between its quotes -/
  key : Text → List β
  num : Number → List β

/-- What stands between the characters of the frame. -/
inductive Atom where
  | null
  | bool (b : Bool)
  | num (n : Number)
  | str (s : Text)
  | key (k : Text)
  deriving DecidableEq, Repr

namespace Json

mutual

def atoms : Json → List Atom
  | .null => [.null]
  | .bool b => [.bool b]
  | .num n => [.num n]
  | .str s => [.str s]
  | .arr items => itemAtoms items
  | .obj fields => fieldAtoms fields

def itemAtoms : List Json → List Atom
  | [] => []
  | j :: items => atoms j ++ itemAtoms items

def fieldAtoms : List (Text × Json) → List Atom
  | [] => []
  | (k, j) :: fields => .key k :: (atoms j ++ fieldAtoms fields)

end

end Json

namespace Layout

variable {β : Type} (L : Layout β)

def atom : Atom → List β
  | .null => ['n', 'u', 'l', 'l'].map L.chr
  | .bool true => ['t', 'r', 'u', 'e'].map L.chr
  | .bool false => ['f', 'a', 'l', 's', 'e'].map L.chr
  | .num n => L.num n
  | .str s => L.str s
  | .key k => L.key k

mutual

def print : Json → List β
  | .null => L.atom .null
  | .bool b => L.atom (.bool b)
  | .num n => L.atom (.num n)
  | .str s => L.chr '"' :: (L.atom (.str s) ++ [L.chr '"'])
  | .arr [] => [L.chr '[', L.chr ']']
  | .arr (j :: items) => L.chr '[' :: (print j ++ printItems items)
  | .obj [] => [L.chr '\x7b', L.chr '\x7d']
  | .obj ((k, j) :: fields) => L.chr '\x7b' :: L.chr '"' :: (L.atom (.key k) ++
      L.chr '"' :: L.chr ':' :: (print j ++ printFields fields))

def printItems : List Json → List β
  | [] => [L.chr ']']
  | j :: items => L.chr ',' :: (print j ++ printItems items)

def printFields : List (Text × Json) → List β
  | [] => [L.chr '\x7d']
  | (k, j) :: fields => L.chr ',' :: L.chr '"' :: (L.atom (.key k) ++
      L.chr '"' :: L.chr ':' :: (print j ++ printFields fields))

end

/-! ## Properties that split at the frame -/

def frame : List Char := ['"', '[', ']', '\x7b', '\x7d', ',', ':']

section Splits

variable {L} {C : List β → Prop}

/-- A property that holds of a text exactly if it holds on both sides of each of the characters. -/
structure Splits (C : List β → Prop) (seps : List β) : Prop where
  nil : C []
  iff : ∀ c ∈ seps, ∀ a b, C (a ++ c :: b) ↔ C a ∧ C b

theorem Splits.cons {seps : List β} (h : Splits C seps) {c : β} (hc : c ∈ seps) (b : List β) :
    C (c :: b) ↔ C b := by
  have hsplit := h.iff c hc [] b
  rw [nil_append] at hsplit
  rw [hsplit, and_iff_right h.nil]

theorem Splits.concat {seps : List β} (h : Splits C seps) {c : β} (hc : c ∈ seps) (a : List β) :
    C (a ++ [c]) ↔ C a := by
  rw [h.iff c hc, and_iff_left h.nil]

theorem chr_mem_frame {c : Char} (hc : c ∈ frame) : L.chr c ∈ frame.map L.chr :=
  mem_map_of_mem hc

mutual

theorem print_splits (h : Splits C (frame.map L.chr)) :
    ∀ j : Json, C (L.print j) ↔ ∀ a ∈ j.atoms, C (L.atom a)
  | .null => by simp [print, Json.atoms]
  | .bool b => by simp [print, Json.atoms]
  | .num n => by simp [print, Json.atoms]
  | .str s => by
    rw [print, h.cons (chr_mem_frame (by decide)), h.concat (chr_mem_frame (by decide))]
    simp [Json.atoms]
  | .arr [] => by
    rw [print, h.cons (chr_mem_frame (by decide)), h.cons (chr_mem_frame (by decide))]
    simp [Json.atoms, Json.itemAtoms, h.nil]
  | .arr (j :: items) => by
    rw [print, h.cons (chr_mem_frame (by decide)), printItems_splits h items, print_splits h j]
    simp only [Json.atoms, Json.itemAtoms, forall_mem_append]
  | .obj [] => by
    rw [print, h.cons (chr_mem_frame (by decide)), h.cons (chr_mem_frame (by decide))]
    simp [Json.atoms, Json.fieldAtoms, h.nil]
  | .obj ((k, j) :: fields) => by
    rw [print, h.cons (chr_mem_frame (by decide)), h.cons (chr_mem_frame (by decide)),
      h.iff _ (chr_mem_frame (by decide)), h.cons (chr_mem_frame (by decide)),
      printFields_splits h fields, print_splits h j]
    simp only [Json.atoms, Json.fieldAtoms, forall_mem_cons, forall_mem_append]

theorem printItems_splits (h : Splits C (frame.map L.chr)) : ∀ (items : List Json) (x : List β),
    C (x ++ L.printItems items) ↔ C x ∧ ∀ a ∈ Json.itemAtoms items, C (L.atom a)
  | [], x => by
    rw [printItems, h.concat (chr_mem_frame (by decide))]
    simp [Json.itemAtoms]
  | j :: items, x => by
    rw [printItems, h.iff _ (chr_mem_frame (by decide)), printItems_splits h items, print_splits h j]
    simp only [Json.itemAtoms, forall_mem_append]

theorem printFields_splits (h : Splits C (frame.map L.chr)) :
    ∀ (fields : List (Text × Json)) (x : List β),
    C (x ++ L.printFields fields) ↔ C x ∧ ∀ a ∈ Json.fieldAtoms fields, C (L.atom a)
  | [], x => by
    rw [printFields, h.concat (chr_mem_frame (by decide))]
    simp [Json.fieldAtoms]
  | (k, j) :: fields, x => by
    rw [printFields, h.iff _ (chr_mem_frame (by decide)), h.cons (chr_mem_frame (by decide)),
      h.iff _ (chr_mem_frame (by decide)), h.cons (chr_mem_frame (by decide)),
      printFields_splits h fields, print_splits h j]
    simp only [Json.fieldAtoms, forall_mem_cons, forall_mem_append]

end

end Splits

section Map

variable {β' : Type}

def map (f : β → β') (L : Layout β) : Layout β' where
  chr c := f (L.chr c)
  str s := (L.str s).map f
  key k := (L.key k).map f
  num n := (L.num n).map f

variable {L} (f : β → β')

theorem atom_map (a : Atom) : (L.map f).atom a = (L.atom a).map f := by
  cases a with
  | bool b => cases b <;> rfl
  | _ => rfl

mutual

theorem print_map : ∀ j : Json, (L.map f).print j = (L.print j).map f
  | .null => atom_map f .null
  | .bool b => atom_map f (.bool b)
  | .num n => atom_map f (.num n)
  | .str s => by
    rw [print, print, atom_map]
    simp [map]
  | .arr [] => rfl
  | .arr (j :: items) => by
    rw [print, print, print_map j, printItems_map items, map_cons, map_append]
    rfl
  | .obj [] => rfl
  | .obj ((k, j) :: fields) => by
    rw [print, print, print_map j, printFields_map fields, atom_map]
    simp [map]

theorem printItems_map : ∀ items : List Json, (L.map f).printItems items = (L.printItems items).map f
  | [] => rfl
  | j :: items => by
    rw [printItems, printItems, print_map j, printItems_map items, map_cons, map_append]
    rfl

theorem printFields_map : ∀ fields : List (Text × Json),
    (L.map f).printFields fields = (L.printFields fields).map f
  | [] => rfl
  | (k, j) :: fields => by
    rw [printFields, printFields, print_map j, printFields_map fields, atom_map]
    simp [map]

end

end Map

end Layout

/-! ## The layout as text -/

namespace Json

/-- A character inside a string: quotes, backslashes and control characters are escaped. -/
def escapeShort (c : Char) : Text :=
  if c = '"' ∨ c = '\\' then ['\\', c]
  else if c = '\x08' then ['\\', 'b']
  else if c = '\t' then ['\\', 't']
  else if c = '\n' then ['\\', 'n']
  else if c = '\x0c' then ['\\', 'f']
  else if c = '\r' then ['\\', 'r']
  else if c.toNat < 32 then
    ['\\', 'u', '0', '0', (c.toNat / 16).digitChar, (c.toNat % 16).digitChar]
  else [c]

def escapeText (s : Text) : Text := s.flatMap escapeShort

/-- The spelling of numbers is left open. -/
def compact (num : Number → Text) : Layout Char where
  chr := id
  str := escapeText
  key := escapeText
  num := num

end Json

end Nanoguard

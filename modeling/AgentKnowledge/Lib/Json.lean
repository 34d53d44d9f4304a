import Mathlib

/-!
The text of JSON values, written without white space.

A value is given by its text, built up from the texts of its parts; strings are written
with the shortest escapes. What matters about a text is its length in UTF-8 (`size`), and
the lemmas say how the length of a value follows from its parts.
-/

namespace Json

/-- The text of a value. -/
abbrev Value := List Char

/-- The length of a text in UTF-8. -/
def size (text : List Char) : Nat := (text.map Char.utf8Size).sum

/-- The characters of a control character's number. -/
def hexadecimal (digit : Nat) : Char := Nat.digitChar digit

/-- How a character stands in a string. -/
def escape (c : Char) : List Char :=
  if c = '"' then ['\\', '"']
  else if c = '\\' then ['\\', '\\']
  else if c = '\x08' then ['\\', 'b']
  else if c = '\t' then ['\\', 't']
  else if c = '\n' then ['\\', 'n']
  else if c = '\x0c' then ['\\', 'f']
  else if c = '\r' then ['\\', 'r']
  else if c.toNat < 32 then
    ['\\', 'u', '0', '0', hexadecimal (c.toNat / 16), hexadecimal (c.toNat % 16)]
  else [c]

def null : Value := "null".toList

def bool : Bool → Value
  | true => "true".toList
  | false => "false".toList

def number (n : Nat) : Value := Nat.toDigits 10 n

def string (text : List Char) : Value := '"' :: (text.flatMap escape ++ ['"'])

/-- The parts of an array or an object. -/
def separated (parts : List Value) : Value := (parts.intersperse [',']).flatten

def array (items : List Value) : Value := '[' :: (separated items ++ [']'])

def field (name : String) (value : Value) : Value := string name.toList ++ ':' :: value

def object (fields : List (String × Value)) : Value :=
  '{' :: (separated (fields.map fun f => field f.1 f.2) ++ ['}'])

section Sizes

variable {text : List Char} {c : Char}

@[simp] theorem size_nil : size [] = 0 := rfl

@[simp] theorem size_cons (c : Char) (text : List Char) : size (c :: text) = c.utf8Size + size text :=
  rfl

@[simp] theorem size_append (a b : List Char) : size (a ++ b) = size a + size b := by
  simp [size]

theorem length_le_size (text : List Char) : text.length ≤ size text := by
  induction text with
  | nil => simp
  | cons c text ih =>
      have hpos := c.utf8Size_pos
      rw [size_cons, List.length_cons]
      omega

theorem utf8Size_of_ascii (h : c.toNat < 128) : c.utf8Size = 1 := by
  rw [Char.utf8Size_eq_one_iff, UInt32.le_iff_toNat_le]
  exact Nat.le_of_lt_succ h

theorem size_of_ascii (h : ∀ c ∈ text, c.toNat < 128) : size text = text.length := by
  induction text with
  | nil => rfl
  | cons c text ih =>
      rw [size_cons, utf8Size_of_ascii (h c List.mem_cons_self), ih fun d hd =>
        h d (List.mem_cons_of_mem c hd), List.length_cons, Nat.add_comm]

theorem escape_ne_nil (c : Char) : escape c ≠ [] := by
  unfold escape
  repeat' split
  all_goals simp

/-- A character is at least as long in a string as it is alone. -/
theorem utf8Size_le_size_escape (c : Char) : c.utf8Size ≤ size (escape c) := by
  by_cases hascii : c.toNat < 128
  · rw [utf8Size_of_ascii hascii]
    exact le_trans (List.length_pos_iff.2 (escape_ne_nil c)) (length_le_size _)
  · have hplain : escape c = [c] := by
      have hne : ∀ d : Char, d.toNat < 128 → c ≠ d := by
        rintro d hd rfl
        exact hascii hd
      unfold escape
      rw [if_neg (hne _ (by decide)), if_neg (hne _ (by decide)), if_neg (hne _ (by decide)),
        if_neg (hne _ (by decide)), if_neg (hne _ (by decide)), if_neg (hne _ (by decide)),
        if_neg (hne _ (by decide)), if_neg (by omega)]
    rw [hplain]
    simp

theorem size_le_size_string (text : List Char) : size text + 2 ≤ size (string text) := by
  have hflat : size text ≤ size (text.flatMap escape) := by
    induction text with
    | nil => simp
    | cons c text ih =>
        have hc := utf8Size_le_size_escape c
        rw [List.flatMap_cons, size_append, size_cons]
        omega
  simp only [string, size_cons, size_append, size_nil]
  have hquote : '"'.utf8Size = 1 := by decide
  omega

theorem size_separated_cons_cons (part next : Value) (parts : List Value) :
    size (separated (part :: next :: parts)) = size part + 1 + size (separated (next :: parts)) := by
  have hcomma : ','.utf8Size = 1 := by decide
  simp only [separated, List.intersperse_cons_cons, List.flatten_cons, size_append, size_cons, size_nil,
    hcomma]
  omega

@[simp] theorem size_separated_nil : size (separated []) = 0 := rfl

@[simp] theorem size_separated_singleton (part : Value) : size (separated [part]) = size part := by
  simp [separated]

/-- Parts and the commas between them. -/
theorem size_separated (parts : List Value) :
    size (separated parts) = (parts.map size).sum + (parts.length - 1) := by
  induction parts with
  | nil => rfl
  | cons part parts ih =>
      cases parts with
      | nil => simp
      | cons next parts =>
          rw [size_separated_cons_cons, ih]
          simp only [List.map_cons, List.sum_cons, List.length_cons]
          omega

theorem size_array (items : List Value) :
    size (array items) = 2 + (items.map size).sum + (items.length - 1) := by
  have hopen : '['.utf8Size = 1 := by decide
  have hclose : ']'.utf8Size = 1 := by decide
  simp only [array, size_cons, size_append, size_nil, size_separated, hopen, hclose]
  omega

theorem size_object (fields : List (String × Value)) :
    size (object fields) =
      2 + (fields.map fun f => size (field f.1 f.2)).sum + (fields.length - 1) := by
  have hopen : '{'.utf8Size = 1 := by decide
  have hclose : '}'.utf8Size = 1 := by decide
  simp only [object, size_cons, size_append, size_nil, size_separated, hopen, hclose, List.map_map,
    List.length_map]
  have hmap : (fields.map (size ∘ fun f => field f.1 f.2)) =
      fields.map fun f => size (field f.1 f.2) := rfl
  rw [hmap]
  omega

theorem size_field (name : String) (value : Value) :
    size (field name value) = size (string name.toList) + 1 + size value := by
  have hcolon : ':'.utf8Size = 1 := by decide
  simp only [field, size_append, size_cons, hcolon]
  omega

end Sizes

end Json

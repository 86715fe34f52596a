/-!
# Byte offsets into a text

A text is a list of characters and an offset counts the bytes of its UTF-8 form. A `Place` carries
the offset together with the text that is still unread there, so that moving on costs only the
characters passed over. `Place.at?` finds the place of an offset and refuses an offset inside a
character; `Place.advance` moves forward by a number of bytes.
-/

namespace Peg

/-- The number of bytes a text takes in UTF-8. -/
def byteLength : List Char → Nat
  | [] => 0
  | c :: cs => c.utf8Size + byteLength cs

@[simp] theorem byteLength_nil : byteLength [] = 0 := rfl

@[simp] theorem byteLength_cons (c : Char) (cs : List Char) :
    byteLength (c :: cs) = c.utf8Size + byteLength cs := rfl

@[simp] theorem byteLength_append (xs ys : List Char) :
    byteLength (xs ++ ys) = byteLength xs + byteLength ys := by
  induction xs with
  | nil => simp
  | cons c cs ih => simp [ih, Nat.add_assoc]

/-- The longest beginning of a text that takes at most `n` bytes. -/
def takeBytes : Nat → List Char → List Char
  | _, [] => []
  | n, c :: cs => if c.utf8Size ≤ n then c :: takeBytes (n - c.utf8Size) cs else []

/-- What `takeBytes` leaves. -/
def dropBytes : Nat → List Char → List Char
  | _, [] => []
  | n, c :: cs => if c.utf8Size ≤ n then dropBytes (n - c.utf8Size) cs else c :: cs

theorem takeBytes_append_dropBytes (n : Nat) (cs : List Char) :
    takeBytes n cs ++ dropBytes n cs = cs := by
  induction cs generalizing n with
  | nil => rfl
  | cons c cs ih =>
    by_cases h : c.utf8Size ≤ n
    · simp [takeBytes, dropBytes, h, ih]
    · simp [takeBytes, dropBytes, h]

theorem takeBytes_byteLength_append (xs ys : List Char) :
    takeBytes (byteLength xs) (xs ++ ys) = xs := by
  induction xs with
  | nil =>
    cases ys with
    | nil => rfl
    | cons c cs =>
      have := c.utf8Size_pos
      simp [takeBytes]
      omega
  | cons c cs ih => simp [takeBytes, ih]

theorem dropBytes_byteLength_append (xs ys : List Char) :
    dropBytes (byteLength xs) (xs ++ ys) = ys := by
  induction xs with
  | nil =>
    cases ys with
    | nil => rfl
    | cons c cs =>
      have := c.utf8Size_pos
      simp [dropBytes]
      omega
  | cons c cs ih => simp [dropBytes, ih]

/-- A point in a text: the bytes before it and the text after it. -/
structure Place where
  offset : Nat
  rest : List Char
deriving DecidableEq, Repr

namespace Place

def start (text : List Char) : Place := ⟨0, text⟩

def advance (p : Place) (n : Nat) : Place := ⟨p.offset + n, dropBytes n p.rest⟩

/-- The place after the next character, which is `c` and leaves `rest`. -/
def past (p : Place) (c : Char) (rest : List Char) : Place := ⟨p.offset + c.utf8Size, rest⟩

/-- The place of an offset, none if the offset lies inside a character or beyond the text. -/
def at? (text : List Char) (offset : Nat) : Option Place :=
  go ⟨0, text⟩ text
where
  go (p : Place) : List Char → Option Place
    | [] => if p.offset = offset then some p else none
    | c :: cs =>
      if p.offset = offset then some p
      else if offset < p.offset then none
      else go (p.past c cs) cs

/-- A place of a text splits it in two, the first part as long as the offset says. -/
def IsIn (p : Place) (text : List Char) : Prop :=
  ∃ before, text = before ++ p.rest ∧ p.offset = byteLength before

theorem isIn_start (text : List Char) : (start text).IsIn text := ⟨[], rfl, rfl⟩

end Place

end Peg

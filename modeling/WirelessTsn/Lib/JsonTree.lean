import WirelessTsn.Lib.Json

/-!
The texts of JSON values of any depth, with any white space. Strings hold no
quote, backslash or bracket, so a bracket in a text always opens or closes an
array or an object. As in `Lib.Json`, the pieces carry their own
well-formedness.
-/

namespace Json

open CText

/-- The content of a string without quotes, backslashes, brackets and control
characters. -/
structure Word where
  chars : CStr
  clean : ∀ c ∈ chars, ' ' ≤ c ∧ c ∉ ['"', '\\', '[', ']', '\x7b', '\x7d']

theorem Word.not_mem (w : Word) {c : Char} (hc : c ∈ ['"', '\\', '[', ']', '\x7b', '\x7d']) :
    c ∉ w.chars :=
  fun hmem => (w.clean c hmem).2 hc

theorem Word.noQuote (w : Word) : '"' ∉ w.chars := w.not_mem (by decide)

mutual

inductive Tree where
  | str (s : Word)
  | num (neg : Bool) (n : Nat)
  | lit (l : Literal)
  | arr (pad : Ws) (items : Elems)
  | obj (pad : Ws) (members : Pairs)

/-- The elements of an array. -/
inductive Elems where
  | nil
  | cons (pre : Ws) (v : Tree) (fin : Ws) (more : Elems)

/-- The members of an object. -/
inductive Pairs where
  | nil
  | cons (pre : Ws) (key : Word) (mid post : Ws) (v : Tree) (fin : Ws) (more : Pairs)

end

/-- A key and its colon before the text of a value. -/
def keyText (pre : Ws) (key : Word) (mid post : Ws) (value : CStr) : CStr :=
  pre.chars ++ '"' :: (key.chars ++ '"' :: (mid.chars ++ ':' :: (post.chars ++ value)))

theorem keyText_append (pre : Ws) (key : Word) (mid post : Ws) (s t : CStr) :
    keyText pre key mid post (s ++ t) = keyText pre key mid post s ++ t := by
  simp [keyText]

mutual

/-- A value and what follows it. -/
def Tree.text : Tree → CStr → CStr
  | .str s, rest => '"' :: (s.chars ++ '"' :: rest)
  | .num neg n, rest => numText neg n ++ rest
  | .lit l, rest => l.text ++ rest
  | .arr pad .nil, rest => '[' :: (pad.chars ++ ']' :: rest)
  | .arr _ (.cons pre v fin more), rest =>
      '[' :: (pre.chars ++ v.text (fin.chars ++ more.tail rest))
  | .obj pad .nil, rest => '\x7b' :: (pad.chars ++ '\x7d' :: rest)
  | .obj _ (.cons pre key mid post v fin more), rest =>
      '\x7b' :: keyText pre key mid post (v.text (fin.chars ++ more.tail rest))

/-- What follows an element: the further ones, the closing bracket, `rest`. -/
def Elems.tail : Elems → CStr → CStr
  | .nil, rest => ']' :: rest
  | .cons pre v fin more, rest => ',' :: (pre.chars ++ v.text (fin.chars ++ more.tail rest))

/-- What follows a member: the further ones, the closing brace, `rest`. -/
def Pairs.tail : Pairs → CStr → CStr
  | .nil, rest => '\x7d' :: rest
  | .cons pre key mid post v fin more, rest =>
      ',' :: keyText pre key mid post (v.text (fin.chars ++ more.tail rest))

end

/-- An array behind its opening bracket. -/
def Elems.text (pad : Ws) : Elems → CStr → CStr
  | .nil, rest => pad.chars ++ ']' :: rest
  | .cons pre v fin more, rest => pre.chars ++ v.text (fin.chars ++ more.tail rest)

/-- An object behind its opening brace. -/
def Pairs.text (pad : Ws) : Pairs → CStr → CStr
  | .nil, rest => pad.chars ++ '\x7d' :: rest
  | .cons pre key mid post v fin more, rest =>
      keyText pre key mid post (v.text (fin.chars ++ more.tail rest))

/-- An object behind its opening brace and the white space there. -/
def Pairs.body : Pairs → CStr → CStr
  | .nil, rest => '\x7d' :: rest
  | .cons _ key mid post v fin more, rest =>
      keyText .none key mid post (v.text (fin.chars ++ more.tail rest))

theorem Pairs.exists_text_eq (pad : Ws) (ps : Pairs) (rest : CStr) :
    ∃ w : Ws, ps.text pad rest = w.chars ++ ps.body rest := by
  cases ps with
  | nil => exact ⟨pad, rfl⟩
  | cons pre key mid post v fin more => exact ⟨pre, rfl⟩

theorem Tree.text_arr (pad : Ws) (items : Elems) (rest : CStr) :
    (Tree.arr pad items).text rest = '[' :: items.text pad rest := by
  cases items <;> rfl

theorem Tree.text_obj (pad : Ws) (members : Pairs) (rest : CStr) :
    (Tree.obj pad members).text rest = '\x7b' :: members.text pad rest := by
  cases members <;> rfl

/-- Every member has the property. -/
def Pairs.All (P : Word → Tree → Prop) : Pairs → Prop
  | .nil => True
  | .cons _ key _ _ v _ more => P key v ∧ more.All P

/-- The value of the first member with the key. -/
def Pairs.find (key : CStr) : Pairs → Option Tree
  | .nil => none
  | .cons _ k _ _ v _ more => if k.chars = key then some v else more.find key

/-- The first member with the key: its value, the white space behind it, and
the members that follow. -/
def Pairs.locate (key : CStr) : Pairs → Option (Tree × Ws × Pairs)
  | .nil => none
  | .cons _ k _ _ v fin more => if k.chars = key then some (v, fin, more) else more.locate key

theorem Pairs.find_eq_locate (key : CStr) (ps : Pairs) :
    ps.find key = (ps.locate key).map Prod.fst := by
  match ps with
  | .nil => rfl
  | .cons pre k mid post v fin more =>
      rw [Pairs.find, Pairs.locate]
      split
      · rfl
      · exact more.find_eq_locate key

/-- The integer of a number. -/
def Tree.int : Tree → Option Int
  | .num neg n => some (numVal neg n)
  | _ => none

/-- The content of a string. -/
def Tree.chars : Tree → Option CStr
  | .str s => some s.chars
  | _ => none

/-- What a number reader makes of a value. -/
def Tree.readNumber {α : Type} (cap : Nat) (conv : CStr → α) : Tree → Option α
  | .num neg n => some (conv ((numText neg n).take cap))
  | _ => none

/-- Neither an array nor an object. -/
def Tree.isFlat : Tree → Bool
  | .arr _ _ | .obj _ _ => false
  | _ => true

theorem Pairs.All.of_find {P : Word → Tree → Prop} {key : CStr} {t : Tree} :
    {ps : Pairs} → ps.All P → ps.find key = some t → ∃ k : Word, k.chars = key ∧ P k t
  | .nil, _, h => nomatch h
  | .cons _ k _ _ v _ more, hall, h => by
      rw [Pairs.find] at h
      split at h
      · rename_i hk
        cases h
        exact ⟨k, hk, hall.1⟩
      · exact Pairs.All.of_find hall.2 h

theorem Pairs.All.imp {P Q : Word → Tree → Prop} (himp : ∀ k v, P k v → Q k v) :
    {ps : Pairs} → ps.All P → ps.All Q
  | .nil, _ => trivial
  | .cons _ k _ _ v _ _, h => ⟨himp k v h.1, h.2.imp himp⟩

/-- No member is an array or an object. -/
def Pairs.Flat (ps : Pairs) : Prop := ps.All fun _ v => v.isFlat = true

/-- An object as a whole text. -/
structure Document where
  lead : Ws
  pad : Ws
  members : Pairs
  trail : Ws

def Document.text (d : Document) : CStr :=
  d.lead.chars ++ (Tree.obj d.pad d.members).text d.trail.chars

/-- The integer of the first member with the key. -/
def Pairs.int (ps : Pairs) (key : CStr) : Option Int := (ps.find key).bind Tree.int

def Document.int (d : Document) (key : CStr) : Option Int := (d.members.find key).bind Tree.int

def Document.chars (d : Document) (key : CStr) : Option CStr := (d.members.find key).bind Tree.chars

/-! ### What a text starts with -/

theorem numText_length_le {neg : Bool} {n k : Nat} (hk : 0 < k) (h : n < 10 ^ k) :
    (numText neg n).length ≤ k + 1 := by
  have hdigits : (Nat.toDigits 10 n).length ≤ k :=
    (Nat.length_toDigits_le_iff (by omega) hk).mpr h
  cases neg with
  | true => simpa [numText] using hdigits
  | false => exact Nat.le_succ_of_le hdigits

theorem numText_head_ne (neg : Bool) (n : Nat) {d : Char} (hdigit : d.isDigit = false)
    (hminus : d ≠ '-') (rest : CStr) : (numText neg n ++ rest).head? ≠ some d := by
  obtain ⟨c, cs, hnum⟩ := List.exists_cons_of_ne_nil (numText_ne_nil neg n)
  rw [hnum]
  intro heq
  cases heq
  exact not_mem_numText hdigit hminus neg n (hnum ▸ List.mem_cons_self)

/-- A value does not start with white space. -/
theorem Tree.text_head (t : Tree) (rest : CStr) : ∀ c ∈ (t.text rest).head?, isWs c = false := by
  intro c hc
  cases t with
  | str s =>
      cases hc
      rfl
  | num neg n =>
      cases hws : isWs c with
      | false => rfl
      | true =>
          have hnot : ∀ d ∈ [' ', '\t', '\n', '\r'], some d ≠ (numText neg n ++ rest).head? :=
            fun d hd => Ne.symm (numText_head_ne neg n (by revert d; decide) (by revert d; decide) rest)
          exact absurd hc.symm (forall_isWs hnot c hws)
  | lit l =>
      cases l <;>
        · cases hc
          rfl
  | arr pad items =>
      cases items <;>
        · cases hc
          rfl
  | obj pad members =>
      cases members <;>
        · cases hc
          rfl

theorem Tree.dropWhile_text (post : Ws) (t : Tree) (rest : CStr) :
    (post.chars ++ t.text rest).dropWhile isWs = t.text rest :=
  post.dropWhile_append (t.text_head rest)

/-- Behind a member stands a comma or the closing brace. -/
theorem Pairs.tail_head (ps : Pairs) (rest : CStr) :
    ∀ c ∈ (ps.tail rest).head?, c = ',' ∨ c = '\x7d' := by
  intro c hc
  cases ps with
  | nil =>
      cases hc
      exact Or.inr rfl
  | cons pre key mid post v fin more =>
      cases hc
      exact Or.inl rfl

end Json

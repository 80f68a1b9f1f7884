import WirelessTsn.Lib.JsonText

/-!
A search for a quoted word in the text of a JSON object with integer members.
The members stand in any order with any white space, and their keys have every
escape of the grammar. The only quotes are those of the keys, with the escaped
ones among them, so the search meets the first key whose text ends with the
quoted word.
-/

namespace JsonText

open CText Json

/-! ### Objects with integer members -/

structure IntMember where
  pre : Ws
  key : List StrPiece
  mid : Ws
  post : Ws
  neg : Bool
  n : Nat
  fin : Ws

namespace IntMember

def name (m : IntMember) : CStr := m.key.map StrPiece.char

def val (m : IntMember) : Int := numVal m.neg m.n

/-- A member behind its colon, and what follows it. -/
def valueText (m : IntMember) (rest : CStr) : CStr :=
  m.post.chars ++ (numText m.neg m.n ++ (m.fin.chars ++ rest))

/-- A member behind its key, and what follows it. -/
def behindKey (m : IntMember) (rest : CStr) : CStr := m.mid.chars ++ ':' :: m.valueText rest

/-- A member and what follows it. -/
def text (m : IntMember) (rest : CStr) : CStr := m.pre.chars ++ (strText m.key ++ m.behindKey rest)

end IntMember

/-- What follows a member: the further ones, the closing brace, `trail`. -/
def intMembersTail (trail : CStr) : List IntMember → CStr
  | [] => '\x7d' :: trail
  | m :: ms => ',' :: m.text (intMembersTail trail ms)

structure IntObject where
  lead : Ws
  pad : Ws
  members : List IntMember
  trail : Ws

/-- An object behind its opening brace. -/
def intMembersText (pad : Ws) (trail : CStr) : List IntMember → CStr
  | [] => pad.chars ++ '\x7d' :: trail
  | m :: ms => m.text (intMembersTail trail ms)

namespace IntObject

def text (o : IntObject) : CStr :=
  o.lead.chars ++ '\x7b' :: intMembersText o.pad o.trail.chars o.members

def value (o : IntObject) : JVal := .obj (o.members.map fun m => (m.name, ofInt m.val))

end IntObject

theorem reads_numText (neg : Bool) (n : Nat) :
    Reads (.value (ofInt (numVal neg n))) (numText neg n) := by
  have hreads := Reads.num ⟨neg, n, none, none⟩
  have htext : (⟨neg, n, none, none⟩ : Number).text = numText neg n := by simp [Number.text]
  have hval : (⟨neg, n, none, none⟩ : Number).val = (numVal neg n : ℚ) := by
    cases neg with
    | true => simp [Number.val, numVal]
    | false => simp [Number.val, numVal]
  rwa [htext, hval] at hreads

theorem reads_intMembers (trail : CStr) (m : IntMember) (ms : List IntMember) :
    ∃ t, Reads (.members ((m :: ms).map fun m => (m.name, ofInt m.val))) t ∧
      m.text (intMembersTail trail ms) = t ++ '\x7d' :: trail := by
  have hval : ∀ m : IntMember, Reads (.value (ofInt m.val)) (numText m.neg m.n) := fun m =>
    reads_numText m.neg m.n
  induction ms generalizing m with
  | nil =>
      refine ⟨_, .member m.pre m.key m.mid m.post m.fin (hval m), ?_⟩
      simp [IntMember.text, IntMember.behindKey, IntMember.valueText, keyText, intMembersTail]
  | cons m' ms ih =>
      obtain ⟨ts, hts, htext⟩ := ih m'
      refine ⟨_, .members m.pre m.key m.mid m.post m.fin (hval m) hts, ?_⟩
      rw [intMembersTail, htext]
      simp [IntMember.text, IntMember.behindKey, IntMember.valueText, keyText]

/-- The text is one of the grammar. -/
theorem IntObject.denotes (o : IntObject) : Denotes o.value o.text := by
  obtain ⟨lead, pad, ms, trail⟩ := o
  cases ms with
  | nil => exact ⟨lead, trail, _, .objNil pad, by simp [IntObject.text, intMembersText]⟩
  | cons m ms =>
      obtain ⟨t, ht, htext⟩ := reads_intMembers trail.chars m ms
      refine ⟨lead, trail, _, .obj ht, ?_⟩
      rw [IntObject.text, intMembersText, htext]
      simp

/-- The value of a key is that of the first member with this name. -/
theorem IntObject.get_value (o : IntObject) (key : CStr) :
    o.value.get key = (o.members.find? fun m => m.name = key).map fun m => ofInt m.val := by
  simp only [IntObject.value, JVal.get, List.find?_map, Option.map_map]
  rfl

/-! ### The search in a key -/

/-- A text that is no part of what stands between two keys. -/
def IsWord (w : CStr) : Prop :=
  w ≠ [] ∧ ∀ c ∈ w, c ∉ ['"', '\\', ':', ' ', '\t', '\n', '\r']

instance (w : CStr) : Decidable (IsWord w) := inferInstanceAs (Decidable (_ ∧ _))

def quoted (w : CStr) : CStr := '"' :: (w ++ ['"'])

/-- The content of a string with its closing quote. -/
def content (ps : List StrPiece) : CStr := ps.flatMap StrPiece.text ++ ['"']

/-- The text of a key ends with the quoted word. Besides the key that is the
word these are the keys with `\"` ahead of it. -/
def Spells (w : CStr) (ps : List StrPiece) : Prop := quoted w <:+ strText ps

instance (w : CStr) (ps : List StrPiece) : Decidable (Spells w ps) :=
  inferInstanceAs (Decidable (_ <:+ _))

/-- A piece is one character or starts with a backslash. -/
theorem StrPiece.text_cases (p : StrPiece) :
    (∃ c, c ≠ '"' ∧ p.text = [c]) ∨ ∃ t, p.text = '\\' :: t := by
  cases p with
  | plain c h => exact .inl ⟨c, h.2.1, rfl⟩
  | escape e h => exact .inr ⟨_, rfl⟩
  | unicode d₁ d₂ d₃ d₄ h => exact .inr ⟨_, rfl⟩

section

variable {w : CStr}

/-- Where a word with its closing quote stands at the start of a content, it is
the whole of it. -/
theorem prefix_content_iff (hquote : '"' ∉ w) (hback : '\\' ∉ w) (ps : List StrPiece) (rest : CStr) :
    w ++ ['"'] <+: content ps ++ rest ↔ w ++ ['"'] = content ps := by
  refine ⟨fun h => ?_, fun h => h ▸ List.prefix_append _ _⟩
  induction ps generalizing w with
  | nil =>
      cases w with
      | nil => rfl
      | cons c w =>
          obtain ⟨hc, -⟩ := List.cons_prefix_cons.mp h
          exact absurd (hc ▸ List.mem_cons_self) hquote
  | cons p ps ih =>
      have hcons : content (p :: ps) = p.text ++ content ps := by simp [content]
      rw [hcons] at h ⊢
      rcases p.text_cases with ⟨c, hc, htext⟩ | ⟨t, htext⟩
      · rw [htext] at h ⊢
        cases w with
        | nil => exact absurd (List.cons_prefix_cons.mp h).1.symm hc
        | cons d w =>
            obtain ⟨rfl, hrest⟩ := List.cons_prefix_cons.mp h
            have hw := ih (fun hmem => hquote (List.mem_cons_of_mem d hmem))
              (fun hmem => hback (List.mem_cons_of_mem d hmem)) hrest
            exact congrArg (d :: ·) hw
      · rw [htext] at h
        cases w with
        | nil => exact absurd (List.cons_prefix_cons.mp h).1 (by decide)
        | cons d w =>
            obtain ⟨rfl, -⟩ := List.cons_prefix_cons.mp h
            exact absurd List.mem_cons_self hback

/-- A search that passes over a text, or ends in it with what it looks for at
the very end. -/
def EndsSearch (w t rest : CStr) : Prop :=
  strstr (quoted w) (t ++ rest) =
    if quoted w <:+ t then some (quoted w ++ rest) else strstr (quoted w) rest

theorem EndsSearch.cons {c : Char} {t rest : CStr} (h : EndsSearch w t rest)
    (hc : quoted w <+: c :: (t ++ rest) → quoted w = c :: t) : EndsSearch w (c :: t) rest := by
  unfold EndsSearch at h ⊢
  rw [List.cons_append, strstr]
  by_cases hhere : quoted w <+: c :: (t ++ rest)
  · have hwhole := hc hhere
    rw [if_pos (List.isPrefixOf_iff_prefix.mpr hhere), if_pos (hwhole ▸ List.suffix_rfl), hwhole]
    rfl
  · have hne : quoted w ≠ c :: t := fun heq => hhere (heq ▸ List.prefix_append _ _)
    have hsuffix : quoted w <:+ c :: t ↔ quoted w <:+ t := by simp [List.suffix_cons_iff, hne]
    rw [if_neg (fun hpre => hhere (List.isPrefixOf_iff_prefix.mp hpre)), h]
    simp only [hsuffix]

/-- Without quotes nothing of the search starts. -/
theorem EndsSearch.skip {t rest : CStr} (h : EndsSearch w t rest) {seg : CStr} (hseg : '"' ∉ seg) :
    EndsSearch w (seg ++ t) rest := by
  induction seg with
  | nil => exact h
  | cons c seg ih =>
      rw [List.mem_cons, not_or] at hseg
      apply (ih hseg.2).cons
      intro hhere
      exact absurd (List.cons_prefix_cons.mp hhere).1 hseg.1

theorem endsSearch_nil (rest : CStr) : EndsSearch w [] rest := by
  simp [EndsSearch, quoted]

theorem EndsSearch.quote (hw : IsWord w) {ps : List StrPiece} {rest : CStr}
    (h : EndsSearch w (content ps) rest) : EndsSearch w ('"' :: content ps) rest := by
  have hquote : '"' ∉ w := fun hmem => hw.2 _ hmem (by decide)
  have hback : '\\' ∉ w := fun hmem => hw.2 _ hmem (by decide)
  apply h.cons
  intro hhere
  have htail := (List.cons_prefix_cons.mp hhere).2
  exact congrArg ('"' :: ·) ((prefix_content_iff hquote hback ps rest).mp htail)

/-- Behind the closing quote of a key stands white space or a colon. -/
def BehindKey (rest : CStr) : Prop := ∀ c ∈ rest.head?, c = ':' ∨ isWs c = true

theorem not_prefix_behindKey (hw : IsWord w) {rest : CStr} (hrest : BehindKey rest) :
    ¬ w ++ ['"'] <+: rest := by
  intro hpre
  obtain ⟨c, w, rfl⟩ := List.exists_cons_of_ne_nil hw.1
  obtain ⟨u, rfl⟩ := hpre
  have hclean := hw.2 c List.mem_cons_self
  rcases hrest c rfl with rfl | hblank
  · exact hclean (by decide)
  · have hblanks : ∀ x ∈ [' ', '\t', '\n', '\r'], x ∈ ['"', '\\', ':', ' ', '\t', '\n', '\r'] := by
      decide
    exact hclean (forall_isWs hblanks c hblank)

theorem endsSearch_content (hw : IsWord w) (ps : List StrPiece) {rest : CStr}
    (hrest : BehindKey rest) : EndsSearch w (content ps) rest := by
  induction ps with
  | nil =>
      apply (endsSearch_nil rest).cons
      intro hhere
      exact absurd (List.cons_prefix_cons.mp hhere).2 (not_prefix_behindKey hw hrest)
  | cons p ps ih =>
      have hcons : content (p :: ps) = p.text ++ content ps := by simp [content]
      rw [hcons]
      cases p with
      | plain c h =>
          apply ih.skip
          rw [StrPiece.text, List.mem_singleton]
          exact fun heq => h.2.1 heq.symm
      | escape e h =>
          by_cases hquote : e.1 = '"'
          · have hescaped := (ih.quote hw).skip (show '"' ∉ ['\\'] by decide)
            rwa [StrPiece.text, hquote]
          · apply ih.skip
            simp [StrPiece.text, Ne.symm hquote]
      | unicode d₁ d₂ d₃ d₄ h =>
          apply ih.skip
          have hhex : '"' ∉ [d₁, d₂, d₃, d₄] := fun hmem => absurd (h _ hmem) (by decide)
          simpa [StrPiece.text] using hhex

/-- A search meets the quoted word at the end of a key or not at all in it. -/
theorem strstr_strText (hw : IsWord w) (ps : List StrPiece) {rest : CStr} (hrest : BehindKey rest) :
    strstr (quoted w) (strText ps ++ rest) =
      if Spells w ps then some (quoted w ++ rest) else strstr (quoted w) rest :=
  (endsSearch_content hw ps hrest).quote hw

end

/-! ### The search in an object -/

section

variable {w : CStr}

theorem strstr_noQuote_append {seg : CStr} (hseg : '"' ∉ seg) (rest : CStr) :
    strstr (quoted w) (seg ++ rest) = strstr (quoted w) rest := by
  have hskip : EndsSearch w (seg ++ []) rest := (endsSearch_nil rest).skip hseg
  have hno : ¬ quoted w <:+ seg := fun hsuffix => hseg (hsuffix.subset List.mem_cons_self)
  rwa [List.append_nil, EndsSearch, if_neg hno] at hskip

theorem IntMember.behindKey_start (m : IntMember) (rest : CStr) : BehindKey (m.behindKey rest) :=
  m.mid.head_append (by decide) fun c hc => .inl (Option.some.inj hc).symm

theorem IntMember.noQuote_behindKey (m : IntMember) (rest : CStr) :
    ∃ seg, '"' ∉ seg ∧ m.behindKey rest = seg ++ rest := by
  refine ⟨m.behindKey [], ?_, by simp [IntMember.behindKey, IntMember.valueText]⟩
  have hnum : '"' ∉ numText m.neg m.n := not_mem_numText (by decide) (by decide) m.neg m.n
  simp [IntMember.behindKey, IntMember.valueText, m.mid.noQuote, m.post.noQuote, m.fin.noQuote, hnum]

/-- A search ends at the key of a member or goes on behind the member. -/
theorem strstr_intMember (hw : IsWord w) (m : IntMember) (rest : CStr) :
    strstr (quoted w) (m.text rest) =
      if Spells w m.key then some (quoted w ++ m.behindKey rest) else strstr (quoted w) rest := by
  obtain ⟨seg, hseg, hbehind⟩ := m.noQuote_behindKey rest
  rw [IntMember.text, strstr_noQuote_append m.pre.noQuote,
    strstr_strText hw m.key (m.behindKey_start rest)]
  split
  · rfl
  · rw [hbehind, strstr_noQuote_append hseg]

/-- The search has come to the end of the key of this member. -/
def StopsAt (w : CStr) (t : CStr) (m : IntMember) : Prop := ∃ rest, t = quoted w ++ m.behindKey rest

theorem strstr_intMembersTail (hw : IsWord w) (trail : Ws) (ms : List IntMember) :
    Option.Rel (StopsAt w) (strstr (quoted w) (intMembersTail trail.chars ms))
      (ms.find? fun m => Spells w m.key) := by
  induction ms with
  | nil =>
      have hclose : '"' ∉ '\x7d' :: trail.chars := by
        rw [List.mem_cons, not_or]
        exact ⟨by decide, trail.noQuote⟩
      have hnone := strstr_noQuote_append (w := w) hclose []
      rw [List.append_nil] at hnone
      rw [intMembersTail, hnone]
      exact .none
  | cons m ms ih =>
      rw [intMembersTail, ← List.singleton_append, strstr_noQuote_append (by decide),
        strstr_intMember hw]
      by_cases hspells : Spells w m.key
      · rw [if_pos hspells, List.find?_cons_of_pos (by simpa using hspells)]
        exact .some ⟨_, rfl⟩
      · rw [if_neg hspells, List.find?_cons_of_neg (by simpa using hspells)]
        exact ih

/-- A search for a quoted word in an object stops at the first member whose key
ends with it. -/
theorem strstr_intObject (hw : IsWord w) (o : IntObject) :
    Option.Rel (StopsAt w) (strstr (quoted w) o.text)
      (o.members.find? fun m => Spells w m.key) := by
  obtain ⟨lead, pad, ms, trail⟩ := o
  have hlead : '"' ∉ lead.chars ++ ['\x7b'] := by
    rw [List.mem_append, not_or]
    exact ⟨lead.noQuote, by decide⟩
  have htext : ∀ s, lead.chars ++ '\x7b' :: s = (lead.chars ++ ['\x7b']) ++ s := by simp
  rw [IntObject.text, htext, strstr_noQuote_append hlead]
  cases ms with
  | nil =>
      rw [intMembersText, strstr_noQuote_append pad.noQuote]
      exact strstr_intMembersTail hw trail []
  | cons m ms =>
      -- behind a comma the search of the members is the same
      have htail := strstr_intMembersTail hw trail (m :: ms)
      rwa [intMembersTail, ← List.singleton_append, strstr_noQuote_append (by decide)] at htail

end

/-! ### Keys without escapes -/

/-- Characters that stand for themselves. -/
def plainPieces (s : CStr) (h : ∀ c ∈ s, IsStrChar c) : List StrPiece := s.pmap .plain h

/-- Every character of the key stands for itself. -/
def IsPlainKey (ps : List StrPiece) : Prop := '\\' ∉ ps.flatMap StrPiece.text

instance (ps : List StrPiece) : Decidable (IsPlainKey ps) := inferInstanceAs (Decidable (¬ _))

theorem IsPlainKey.text_eq {ps : List StrPiece} (h : IsPlainKey ps) :
    ps.flatMap StrPiece.text = ps.map StrPiece.char ∧ '"' ∉ ps.map StrPiece.char := by
  induction ps with
  | nil => exact ⟨rfl, List.not_mem_nil⟩
  | cons p ps ih =>
      rw [IsPlainKey, List.flatMap_cons, List.mem_append, not_or] at h
      obtain ⟨htext, hquote⟩ := ih h.2
      cases p with
      | plain c hc =>
          refine ⟨congrArg (c :: ·) htext, ?_⟩
          rw [List.map_cons, List.mem_cons, not_or]
          exact ⟨hc.2.1.symm, hquote⟩
      | escape e he => exact absurd List.mem_cons_self h.1
      | unicode d₁ d₂ d₃ d₄ hd => exact absurd List.mem_cons_self h.1

/-- Without escapes a key that spells a word is the word. -/
theorem spells_iff_of_plain {w : CStr} {ps : List StrPiece} (h : IsPlainKey ps) :
    Spells w ps ↔ ps.map StrPiece.char = w := by
  obtain ⟨htext, hquote⟩ := h.text_eq
  rw [Spells, strText, htext, quoted, List.suffix_cons_iff]
  constructor
  · rintro (heq | hsuffix)
    · simpa using (List.cons.inj heq).2.symm
    · obtain ⟨u, hu⟩ := hsuffix
      have hcut : u ++ ('"' :: w) = ps.map StrPiece.char := by
        have hclosed : (u ++ ('"' :: w)) ++ ['"'] = ps.map StrPiece.char ++ ['"'] := by simpa using hu
        exact List.append_cancel_right hclosed
      exact absurd (hcut ▸ List.mem_append_right u List.mem_cons_self) hquote
  · rintro rfl
    exact .inl rfl

end JsonText

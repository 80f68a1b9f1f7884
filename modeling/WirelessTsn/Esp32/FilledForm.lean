import WirelessTsn.Esp32.Provisioning
import WirelessTsn.Lib.FormUrl

/-!
A form that a browser sends to the provisioning portal, and what the save
callback gets of it. The body has 511 bytes of room and each part of it 127, in
its encoded form: three bytes for an escaped one. What is cut off is lost.
-/

namespace Htsn.Esp32

open CText

/-! ### The form -/

/-- The fields of the form. -/
inductive PortalField where
  | devid
  | ssid
  | pass
  | mqtt
  | muser
  | mpass
  deriving DecidableEq

namespace PortalField

def all : List PortalField := [devid, ssid, pass, mqtt, muser, mpass]

def name : PortalField → CStr
  | devid => "devid".toList
  | ssid => "ssid".toList
  | pass => "pass".toList
  | mqtt => "mqtt".toList
  | muser => "muser".toList
  | mpass => "mpass".toList

/-- The buffer of a field. -/
def size : PortalField → Nat
  | devid => 32
  | ssid | pass | mqtt | muser | mpass => 64

def get (f : PortalForm) : PortalField → CStr
  | devid => f.devid.chars
  | ssid => f.ssid.chars
  | pass => f.pass.chars
  | mqtt => f.mqtt.chars
  | muser => f.muser.chars
  | mpass => f.mpass.chars

/-- What is saved for a field that is left empty. -/
def unset : PortalField → CStr
  | mqtt => "htsn-broker.local".toList
  | devid | ssid | pass | muser | mpass => []

/-- The fields that the save callback gets. -/
def saved : List PortalField := [ssid, pass, devid, mqtt]

end PortalField

open PortalField

/-- The values of a form, in some encoding and some order of the fields. -/
structure FilledForm where
  value : PortalField → CStr
  encoded : PortalField → CStr
  order : List PortalField
  encodes : ∀ f, Encodes (value f) (encoded f)
  order_all : order.Perm all
  nulFree : ∀ f, '\x00' ∉ value f
  ssid_length : 1 ≤ (value ssid).length ∧ (value ssid).length ≤ 32
  pass_length : (value pass).length ≤ 63
  devid_length : (value devid).length ≤ 31
  mqtt_length : (value mqtt).length ≤ 63
  others : value muser = [] ∧ value mpass = []

/-- `key=value` -/
def FilledForm.part (s : FilledForm) (f : PortalField) : CStr := f.name ++ '=' :: s.encoded f

def FilledForm.body (s : FilledForm) : CStr := List.intercalate ['&'] (s.order.map s.part)

/-- What `handle_config` passes to `save_cb`. -/
structure SaveArgs where
  ssid : CStr
  pass : CStr
  devid : CStr
  mqtt : CStr
  deriving DecidableEq

/-- The login for the broker, as `handle_config` stores it. -/
def Flash.login (flash : Flash) (form : PortalForm) : Flash :=
  let auth (v : CStr) : Option CStr := if v = [] then none else some v
  { flash with keys := { flash.keys with muser := auth form.muser.chars, mpass := auth form.mpass.chars } }

/-- The arguments of the call of `save_cb`; `none` where an error is sent
instead. -/
def PortalRequest.saveArgs (r : PortalRequest) : Option SaveArgs :=
  if r.received = [] then none
  else if r.form.ssid.chars = [] then none
  else some ⟨r.form.ssid.chars, r.form.pass.chars, r.form.devid.chars, r.keptHost.chars⟩

/-- The values as they were entered. -/
def FilledForm.originals (s : FilledForm) : SaveArgs := ⟨s.value ssid, s.value pass, s.value devid, s.value mqtt⟩

/-! ### What arrives -/

/-- Of the parts in this order, cut after `n` bytes: what is left of that of a
field. -/
def FilledForm.cutPart (s : FilledForm) : List PortalField → Nat → PortalField → CStr
  | [], _, _ => []
  | g :: gs, n, f => if g = f then (s.part g).take n else s.cutPart gs (n - (s.part g).length - 1) f

/-- What stands of a field in the buffer of 128 bytes, when one call of
`httpd_req_recv` finds `segment` bytes. -/
def FilledForm.arrived (s : FilledForm) (segment : Nat) (f : PortalField) : CStr :=
  (s.cutPart s.order (min (min segment 511) s.body.length) f).take 127

/-- What is left of the form of a value says the value: it is the whole form, or
it ends in the stub of an escape, and the stub as it stands, in the room that
the field has, is the rest of the value. -/
def SaysValue (size : Nat) (v e s : CStr) : Prop :=
  s = e ∨ ∃ u eu p, Encodes u eu ∧ p ≠ [] ∧ IsStub p ∧ s = eu ++ p ∧ v = (u ++ p).take (size - 1)

/-- A value that is not empty is said by what arrives, or nothing arrives of a
value that is saved for an empty field. -/
def FilledForm.Kept (s : FilledForm) (segment : Nat) (f : PortalField) : Prop :=
  (s.value f ≠ [] ∧ ∃ e, s.arrived segment f = f.name ++ '=' :: e ∧ SaysValue f.size (s.value f) (s.encoded f) e) ∨
    (s.value f = f.unset ∧ (s.arrived segment f).length ≤ f.name.length + 1)

/-! ### Decoding -/

section

variable {u v e p rest : CStr} {n : Nat}

theorem urlDecode_plain {c : Char} (h : isFormSpecial c = false) (rest : CStr) :
    urlDecode (c :: rest) = c :: urlDecode rest := by
  have hpercent : c ≠ '%' := by
    rintro rfl
    cases h
  have hplus : c ≠ '+' := by
    rintro rfl
    cases h
  rw [urlDecode]
  · exact fun h l s heq => absurd heq hpercent
  · exact hplus

/-- The decoder undoes every encoding. -/
theorem urlDecode_append (h : Encodes u e) (rest : CStr) : urlDecode (e ++ rest) = u ++ urlDecode rest := by
  induction h with
  | nil => rfl
  | plain hc h ih => rw [List.cons_append, urlDecode_plain hc, ih, List.cons_append]
  | space h ih => rw [List.cons_append, urlDecode, ih, List.cons_append]
  | escape hhi hlo h ih =>
      rw [List.cons_append, List.cons_append, List.cons_append, urlDecode, hhi, hlo]
      dsimp only
      rw [ih, List.cons_append]

/-- A stub stays as it is. -/
theorem urlDecode_stub (h : IsStub p) : urlDecode p = p := by
  rcases h with rfl | rfl | ⟨d, hd, rfl⟩
  · rfl
  · rfl
  · have hlone : urlDecode ['%', d] = '%' :: urlDecode [d] := rfl
    rw [hlone, urlDecode_plain (hexVal_plain hd)]
    rfl

/-- What the decoder makes of the beginning of a form, in the room of a field,
is the value exactly when it says the value. -/
theorem decoded_iff (h : Encodes v e) {s : CStr} (hs : s <+: e) {size : Nat} (hfit : v.length < size) :
    (urlDecode s).take (size - 1) = v ↔ SaysValue size v e s := by
  obtain ⟨u, eu, p, w, hu, rfl, rfl, hend⟩ := h.split hs
  rcases hend with ⟨hwhole, rfl, rfl⟩ | ⟨hw, hp⟩
  · refine iff_of_true ?_ (Or.inl hwhole)
    have hdecode := urlDecode_append hu []
    have hnil : urlDecode [] = [] := rfl
    rw [hnil, List.append_nil] at hdecode
    rw [List.append_nil] at hfit ⊢
    rw [List.append_nil, hdecode, List.append_nil]
    exact List.take_of_length_le (by omega)
  · rw [urlDecode_append hu, urlDecode_stub hp]
    have hlonger : 0 < w.length := List.length_pos_iff.mpr hw
    rw [List.length_append] at hfit
    constructor
    · intro hsame
      refine Or.inr ⟨u, eu, p, hu, ?_, hp, rfl, hsame.symm⟩
      rintro rfl
      have hlen := congrArg List.length hsame
      rw [List.append_nil, List.take_of_length_le (by omega), List.length_append] at hlen
      omega
    · rintro (hwhole | ⟨u', eu', p', hu', -, hp', hsplit, hsame⟩)
      · -- the whole form decodes to the whole value, so the stub is the rest of it
        have hdecode := urlDecode_append h []
        have hnil : urlDecode [] = [] := rfl
        rw [← hwhole, List.append_nil, urlDecode_append hu, urlDecode_stub hp, hnil, List.append_nil] at hdecode
        rw [hdecode]
        exact List.take_of_length_le (by rw [List.length_append]; omega)
      · have hother := urlDecode_append hu' p'
        rw [← hsplit, urlDecode_append hu, urlDecode_stub hp, urlDecode_stub hp'] at hother
        rw [hother, ← hsame]

end

/-! ### One part of the body -/

section

variable {s : FilledForm} {f g : PortalField} {tok : CStr} {form : PortalForm}

theorem name_clean (f : PortalField) : '=' ∉ f.name ∧ '&' ∉ f.name ∧ '\x00' ∉ f.name := by
  cases f <;> decide

theorem pairOf_pair {key : CStr} (h : '=' ∉ key) (val : CStr) :
    pairOf (key ++ '=' :: val) = some (key, cText (urlDecode val)) := by
  have hkey : ∀ c ∈ key, decide (c ≠ '=') = true := fun c hc => decide_eq_true fun heq => h (heq ▸ hc)
  rw [pairOf, List.dropWhile_append_of_pos hkey, List.takeWhile_append_of_pos hkey]
  simp

theorem pairOf_none (h : '=' ∉ tok) : pairOf tok = none := by
  have hall : tok.dropWhile (fun c => c ≠ '=') = [] :=
    List.dropWhile_eq_nil_iff.mpr fun c hc => decide_eq_true fun heq => h (heq ▸ hc)
  rw [pairOf, hall]

/-- A part that is cut behind the sign, and one that is cut before it. -/
theorem prefix_part (h : tok <+: s.part f) :
    (∃ e, tok = f.name ++ '=' :: e ∧ e <+: s.encoded f) ∨ '=' ∉ tok ∧ tok.length ≤ f.name.length := by
  obtain ⟨hname, -, -⟩ := name_clean f
  obtain ⟨t, ht⟩ := h
  rw [FilledForm.part, List.append_eq_append_iff] at ht
  rcases ht with ⟨lost, hlost, -⟩ | ⟨back, rfl, hback⟩
  · rw [hlost] at hname ⊢
    refine Or.inr ⟨fun hmem => hname (List.mem_append_left lost hmem), ?_⟩
    rw [List.length_append]
    exact Nat.le_add_right _ _
  · cases back with
    | nil =>
        rw [List.append_nil]
        exact Or.inr ⟨hname, Nat.le_refl _⟩
    | cons c e =>
        obtain ⟨rfl, hrest⟩ := List.cons.inj hback
        exact Or.inl ⟨e, rfl, ⟨t, hrest.symm⟩⟩

/-- The setting of a field, and of no other. -/
theorem get_put (form : PortalForm) (g f : PortalField) (val : CStr) :
    f.get (form.put g.name val) = if f = g then val.take (g.size - 1) else f.get form := by
  cases g <;> cases f <;> rfl

/-- What a part, cut once more to the size of its copy, sets a field to. -/
def PortalField.read (f : PortalField) (old tok : CStr) : CStr :=
  match pairOf (tok.take 127) with
  | none => old
  | some kv => kv.2.take (f.size - 1)

theorem read_nil (f : PortalField) (old : CStr) : f.read old [] = old := rfl

theorem get_token (h : tok <+: s.part g) (form : PortalForm) (f : PortalField) :
    f.get (form.token tok) = if f = g then g.read (g.get form) tok else f.get form := by
  have hcopy : (Buf.copy 128 tok).chars = tok.take 127 := rfl
  rw [PortalForm.token, PortalField.read, hcopy]
  rcases prefix_part ((List.take_prefix 127 tok).trans h) with ⟨e, he, -⟩ | ⟨hnone, -⟩
  · rw [he, pairOf_pair (name_clean g).1]
    exact get_put form g f _
  · rw [pairOf_none hnone]
    dsimp only
    split
    · rename_i heq
      rw [heq]
    · rfl

theorem cutPart_zero (s : FilledForm) (gs : List PortalField) (f : PortalField) : s.cutPart gs 0 f = [] := by
  induction gs with
  | nil => rfl
  | cons g gs ih =>
      rw [FilledForm.cutPart, Nat.zero_sub, Nat.zero_sub, ih, List.take_zero, ite_self]

theorem cutPart_notMem {gs : List PortalField} (h : f ∉ gs) (s : FilledForm) (n : Nat) : s.cutPart gs n f = [] := by
  induction gs generalizing n with
  | nil => rfl
  | cons g gs ih =>
      rw [List.mem_cons, not_or] at h
      rw [FilledForm.cutPart, if_neg (Ne.symm h.1), ih h.2]

/-- What the parts, cut after `n` bytes, set a field to. -/
theorem get_foldl (s : FilledForm) {gs : List PortalField} (h : gs.Nodup) (n : Nat) (form : PortalForm)
    (f : PortalField) :
    f.get ((cutTokens n (gs.map s.part)).foldl PortalForm.token form) =
      f.read (f.get form) (s.cutPart gs n f) := by
  induction gs generalizing n form with
  | nil => rfl
  | cons g gs ih =>
      obtain ⟨hg, hgs⟩ := List.nodup_cons.mp h
      rw [List.map_cons, cutTokens]
      by_cases hzero : n = 0
      · rw [if_pos hzero, hzero, cutPart_zero, read_nil]
        rfl
      rw [if_neg hzero, FilledForm.cutPart]
      split
      · rename_i hwhole
        rw [List.foldl_cons, ih hgs, get_token (List.prefix_refl _)]
        by_cases hf : f = g
        · subst hf
          rw [if_pos rfl, if_pos rfl, cutPart_notMem hg, read_nil, List.take_of_length_le hwhole]
        · rw [if_neg hf, if_neg (Ne.symm hf)]
      · rename_i hcut
        have hnone : n - (s.part g).length - 1 = 0 := by omega
        rw [List.foldl_cons, List.foldl_nil, get_token (List.take_prefix n _), hnone, cutPart_zero]
        by_cases hf : f = g
        · subst hf
          rw [if_pos rfl, if_pos rfl]
        · rw [if_neg hf, if_neg (Ne.symm hf), read_nil]

/-! ### The whole body -/

theorem part_clean (s : FilledForm) (f : PortalField) :
    s.part f ≠ [] ∧ '&' ∉ s.part f ∧ '\x00' ∉ s.part f := by
  obtain ⟨-, hamp, hnul⟩ := name_clean f
  obtain ⟨hamp', hnul'⟩ := (s.encodes f).clean
  refine ⟨by simp [FilledForm.part], ?_, ?_⟩
  · simp [FilledForm.part, hamp, hamp']
  · simp [FilledForm.part, hnul, hnul']

theorem intercalate_concat {parts : List CStr} (h : parts ≠ []) :
    List.intercalate ['&'] parts ++ ['&'] = parts.flatMap fun t => t ++ ['&'] := by
  induction parts with
  | nil => exact absurd rfl h
  | cons t parts ih =>
      cases parts with
      | nil => simp
      | cons t' parts =>
          rw [List.flatMap_cons, ← ih (List.cons_ne_nil t' parts), List.intercalate_cons_cons]
          simp only [List.append_assoc]

theorem order_ne_nil (s : FilledForm) : s.order ≠ [] := by
  intro hnil
  have hlen := s.order_all.length_eq
  rw [hnil] at hlen
  cases hlen

theorem body_nulFree (s : FilledForm) : '\x00' ∉ s.body := by
  have hparts : s.order.map s.part ≠ [] := by simpa using order_ne_nil s
  intro hmem
  have hmore : '\x00' ∈ s.body ++ ['&'] := List.mem_append_left _ hmem
  rw [FilledForm.body, intercalate_concat hparts, List.mem_flatMap] at hmore
  obtain ⟨t, ht, hin⟩ := hmore
  obtain ⟨f, -, rfl⟩ := List.mem_map.mp ht
  rcases List.mem_append.mp hin with hpart | hsep
  · exact (part_clean s f).2.2 hpart
  · exact absurd (List.mem_singleton.mp hsep) (by decide)

/-- The parts that `strtok_r` finds in the buffer. -/
theorem tokens_body (s : FilledForm) (n : Nat) :
    strtok '&' (cText (s.body.take n)) = cutTokens (min n s.body.length) (s.order.map s.part) := by
  have hparts : s.order.map s.part ≠ [] := by simpa using order_ne_nil s
  have htext : cText (s.body.take n) = s.body.take n := by
    rw [cText, List.takeWhile_eq_self_iff]
    intro c hc
    exact decide_eq_true fun heq => body_nulFree s (heq ▸ List.mem_of_mem_take hc)
  have hcut : s.body.take n = (s.body ++ ['&']).take (min n s.body.length) := by
    rw [List.take_append_of_le_length (Nat.min_le_right _ _), ← List.take_take,
      List.take_of_length_le (l := s.body) (Nat.le_refl _)]
  rw [htext, hcut, FilledForm.body, intercalate_concat hparts]
  apply strtok_take
  intro t ht
  obtain ⟨f, -, rfl⟩ := List.mem_map.mp ht
  exact ⟨(part_clean s f).1, (part_clean s f).2.1⟩

theorem order_nodup (s : FilledForm) : s.order.Nodup := s.order_all.nodup_iff.mpr (by decide)

/-- What the form has for a field. -/
theorem get_form (s : FilledForm) (segment : Nat) (f : PortalField) :
    f.get (PortalRequest.form ⟨s.body, segment⟩) =
      f.read [] (s.cutPart s.order (min (min segment 511) s.body.length) f) := by
  have hempty : f.get {} = [] := by cases f <;> rfl
  have hreceived : PortalRequest.received ⟨s.body, segment⟩ = s.body.take (min segment 511) := rfl
  rw [PortalRequest.form, hreceived, tokens_body, get_foldl s (order_nodup s), hempty]

/-! ### One field -/

theorem isPrefix_cutPart (s : FilledForm) (gs : List PortalField) (n : Nat) (f : PortalField) :
    s.cutPart gs n f <+: s.part f := by
  induction gs generalizing n with
  | nil => exact List.nil_prefix
  | cons g gs ih =>
      rw [FilledForm.cutPart]
      split
      · rename_i heq
        rw [heq]
        exact List.take_prefix n _
      · exact ih _

theorem value_fits (s : FilledForm) (f : PortalField) : (s.value f).length < f.size := by
  have hssid := s.ssid_length
  have hpass := s.pass_length
  have hdevid := s.devid_length
  have hmqtt := s.mqtt_length
  cases f
  case muser => rw [s.others.1]; decide
  case mpass => rw [s.others.2]; decide
  all_goals simp only [PortalField.size]; omega

theorem urlDecode_ne_nil {e : CStr} (h : e ≠ []) : urlDecode e ≠ [] := by
  unfold urlDecode
  split
  · exact absurd rfl h
  · split <;> simp
  · simp
  · simp

/-- What is saved for a field of the form. -/
def PortalField.savedText (f : PortalField) (form : PortalForm) : CStr :=
  if f.get form = [] then f.unset else f.get form

/-- No NUL comes out of the decoder. -/
theorem cText_decoded (s : FilledForm) (f : PortalField) {e : CStr} (he : e <+: s.encoded f) :
    cText (urlDecode e) = urlDecode e := by
  obtain ⟨u, eu, p, w, hu, rfl, hvalue, hend⟩ := (s.encodes f).split he
  have hp : IsStub p := hend.elim (fun h => Or.inl h.2.1) fun h => h.2
  rw [urlDecode_append hu, urlDecode_stub hp, cText, List.takeWhile_eq_self_iff]
  intro c hc
  refine decide_eq_true fun heq => ?_
  subst heq
  rcases List.mem_append.mp hc with hin | hin
  · exact s.nulFree f (hvalue ▸ List.mem_append_left w hin)
  · rcases hp with rfl | rfl | ⟨d, hd, rfl⟩
    · cases hin
    · exact absurd (List.mem_singleton.mp hin) (by decide)
    · rcases List.mem_cons.mp hin with hno | hno
      · exact absurd hno (by decide)
      · exact (ne_of_plain (hexVal_plain hd)).2 (List.mem_singleton.mp hno).symm

theorem savedText_of_nil (h : f.get form = []) : f.savedText form = f.unset := if_pos h

theorem savedText_of_unset (h : f.unset = []) : f.savedText form = f.get form := by
  unfold PortalField.savedText
  split
  · rename_i hnil
    rw [h, hnil]
  · rfl

theorem savedText_of_ne (h : f.get form ≠ []) : f.savedText form = f.get form := if_neg h

/-- A field is saved as it was entered exactly when it is kept. -/
theorem savedText_iff (s : FilledForm) (segment : Nat) (f : PortalField) :
    f.savedText (PortalRequest.form ⟨s.body, segment⟩) = s.value f ↔ s.Kept segment f := by
  have hprefix : s.arrived segment f <+: s.part f := (List.take_prefix 127 _).trans (isPrefix_cutPart s _ _ f)
  have hread : f.get (PortalRequest.form ⟨s.body, segment⟩) =
      match pairOf (s.arrived segment f) with | none => [] | some kv => kv.2.take (f.size - 1) := get_form s segment f
  rw [FilledForm.Kept]
  generalize PortalRequest.form ⟨s.body, segment⟩ = form at hread
  rcases prefix_part hprefix with ⟨e, harrived, he⟩ | ⟨hnone, hshort⟩
  · rw [harrived, pairOf_pair (name_clean f).1] at hread
    dsimp only at hread
    rw [cText_decoded s f he] at hread
    have hlen : (f.name ++ '=' :: e).length = f.name.length + 1 + e.length := by
      rw [List.length_append, List.length_cons]
      omega
    have hsplit : ∀ e', f.name ++ '=' :: e = f.name ++ '=' :: e' ↔ e = e' := by simp
    simp only [harrived, hsplit, exists_eq_left', hlen]
    rw [← decoded_iff (s.encodes f) he (value_fits s f), ← hread]
    by_cases hnil : e = []
    · have hget : f.get form = [] := by
        rw [hread, hnil]
        exact List.take_nil
      rw [savedText_of_nil hget, hget, hnil]
      constructor
      · intro hunset
        exact Or.inr ⟨hunset.symm, Nat.le_refl _⟩
      · rintro (⟨hne, hsays⟩ | ⟨hunset, -⟩)
        · exact absurd hsays.symm hne
        · exact hunset.symm
    · have hvalue : s.value f ≠ [] := by
        intro hempty
        have hencoded := s.encodes f
        rw [hempty] at hencoded
        rw [hencoded.eq_nil] at he
        exact hnil (List.prefix_nil.mp he)
      have hlonger : ¬ f.name.length + 1 + e.length ≤ f.name.length + 1 := by
        have hpos := List.length_pos_iff.mpr hnil
        omega
      have hroom : f.size - 1 ≠ 0 := by cases f <;> decide
      have hget : f.get form ≠ [] := by
        rw [hread, ne_eq, List.take_eq_nil_iff, not_or]
        exact ⟨hroom, urlDecode_ne_nil hnil⟩
      rw [savedText_of_ne hget]
      simp only [hvalue, hlonger, ne_eq, not_false_eq_true, true_and, and_false, or_false]
  · rw [pairOf_none hnone] at hread
    rw [savedText_of_nil hread]
    constructor
    · intro hunset
      exact Or.inr ⟨hunset.symm, Nat.le_succ_of_le hshort⟩
    · rintro (⟨-, e, harrived, -⟩ | ⟨hunset, -⟩)
      · rw [harrived] at hnone
        exact absurd (by simp) hnone
      · exact hunset.symm

/-- The callback gets the values as they were entered exactly when each of its
fields is saved so. -/
theorem saveArgs_originals_iff (s : FilledForm) (segment : Nat) :
    PortalRequest.saveArgs ⟨s.body, segment⟩ = some s.originals ↔
      ∀ f ∈ PortalField.saved, f.savedText (PortalRequest.form ⟨s.body, segment⟩) = s.value f := by
  have hunread : PortalRequest.received ⟨s.body, segment⟩ = [] →
      (PortalRequest.form ⟨s.body, segment⟩).ssid.chars = [] := by
    intro hnone
    rw [PortalRequest.form, hnone]
    rfl
  have hssid : s.value ssid ≠ [] := List.length_pos_iff.mp s.ssid_length.1
  simp only [PortalField.saved, List.forall_mem_cons]
  generalize hform : PortalRequest.form ⟨s.body, segment⟩ = form at hunread
  have hhost : PortalField.mqtt.savedText form = (PortalRequest.keptHost ⟨s.body, segment⟩).chars := by
    unfold PortalField.savedText PortalRequest.keptHost
    rw [hform]
    have hchars : PortalField.get form mqtt = form.mqtt.chars := rfl
    rw [hchars]
    split
    · exact (Buf.copy_chars_of_lt (by decide)).symm
    · rfl
  rw [savedText_of_unset rfl, savedText_of_unset rfl, savedText_of_unset rfl, hhost]
  unfold PortalRequest.saveArgs FilledForm.originals
  rw [hform]
  constructor
  · intro hargs
    split at hargs
    · cases hargs
    split at hargs
    · cases hargs
    · obtain ⟨h₁, h₂, h₃, h₄⟩ := SaveArgs.mk.inj (Option.some.inj hargs)
      exact ⟨h₁, h₂, h₃, h₄, by simp⟩
  · rintro ⟨h₁, h₂, h₃, h₄, -⟩
    have hgiven : form.ssid.chars ≠ [] := fun hnil => hssid (h₁.symm.trans hnil)
    rw [if_neg fun hnone => hgiven (hunread hnone), if_neg hgiven]
    exact congrArg some (SaveArgs.mk.injEq .. ▸ ⟨h₁, h₂, h₃, h₄⟩)

/-- For every form in every encoding and order, and however much of the body
one call brings: the save callback gets the values as they were entered exactly
when each of its four fields is kept. -/
theorem form_exact_iff (s : FilledForm) (segment : Nat) :
    PortalRequest.saveArgs ⟨s.body, segment⟩ = some s.originals ↔ ∀ f ∈ PortalField.saved, s.Kept segment f := by
  rw [saveArgs_originals_iff]
  exact forall_congr' fun f => imp_congr_right fun _ => savedText_iff s segment f

/-- Every field that may be left empty says so when it arrives, and so does any
other, in a body and parts that fit. -/
theorem kept_of_fits {segment : Nat} (hbody : s.body.length ≤ min segment 511)
    (hpart : (s.part f).length ≤ 127) (hvalue : s.value f ≠ [] ∨ f.unset = []) : s.Kept segment f := by
  have hwhole : ∀ (gs : List PortalField) (n : Nat), f ∈ gs → (gs.map fun g => (s.part g).length + 1).sum ≤ n + 1 →
      s.cutPart gs n f = s.part f := by
    intro gs
    induction gs with
    | nil => exact fun n hf => absurd hf List.not_mem_nil
    | cons g gs ih =>
        intro n hf hn
        rw [List.map_cons, List.sum_cons] at hn
        rw [FilledForm.cutPart]
        split
        · rename_i heq
          rw [heq] at hn ⊢
          exact List.take_of_length_le (by omega)
        · rename_i hne
          have hrest := (List.mem_cons.mp hf).resolve_left (Ne.symm hne)
          have hpos : 0 < (gs.map fun g => (s.part g).length + 1).sum := by
            have hmem := List.mem_map_of_mem (f := fun g => (s.part g).length + 1) hrest
            have hle := List.single_le_sum (by simp) _ hmem
            omega
          exact ih _ hrest (by omega)
  have hlength : (s.order.map fun g => (s.part g).length + 1).sum = s.body.length + 1 := by
    have hparts : s.order.map s.part ≠ [] := by simpa using order_ne_nil s
    have hjoin := congrArg List.length (intercalate_concat hparts)
    rw [List.length_append, List.length_singleton, List.length_flatMap, List.map_map] at hjoin
    rw [FilledForm.body, hjoin]
    congr 1
    exact List.map_congr_left fun g _ => by simp
  have hmem : f ∈ s.order := s.order_all.mem_iff.mpr (by cases f <;> decide)
  have harrived : s.arrived segment f = s.part f := by
    rw [FilledForm.arrived, Nat.min_eq_right hbody, hwhole _ _ hmem hlength.le]
    exact List.take_of_length_le hpart
  by_cases hnil : s.value f = []
  · have hencoded := s.encodes f
    rw [hnil] at hencoded
    refine Or.inr ⟨hnil.trans (hvalue.resolve_left fun hne => hne hnil).symm, ?_⟩
    rw [harrived, FilledForm.part, hencoded.eq_nil, List.length_append]
    exact Nat.le_refl _
  · exact Or.inl ⟨hnil, s.encoded f, harrived, Or.inl rfl⟩

/-- `handle_config` saves the arguments behind the broker's login. -/
theorem handleConfig_of_saveArgs {r : PortalRequest} {a : SaveArgs} (h : r.saveArgs = some a) (flash : Flash) :
    handleConfig flash r = (.saved, (flash.login r.form).provSave a.ssid a.pass a.devid a.mqtt) := by
  unfold PortalRequest.saveArgs at h
  split at h
  · cases h
  · rename_i hbody
    split at h
    · cases h
    · rename_i hssid
      cases h
      rw [handleConfig, if_neg hbody]
      exact if_neg hssid

/-- A form that arrives whole, its parts too, and names a broker: the node
stores what was entered, without a login for the broker, and answers so. -/
theorem form_stored (s : FilledForm) {segment : Nat} (hbody : s.body.length ≤ min segment 511)
    (hparts : ∀ f, (s.part f).length ≤ 127) (hbroker : s.value mqtt ≠ []) (flash : Flash) :
    handleConfig flash ⟨s.body, segment⟩ =
      (.saved, Flash.provSave { flash with keys := { flash.keys with muser := none, mpass := none } }
        (s.value ssid) (s.value pass) (s.value devid) (s.value mqtt)) := by
  have htext : ∀ f, f.savedText (PortalRequest.form ⟨s.body, segment⟩) = s.value f := by
    intro f
    refine (savedText_iff s segment f).mpr (kept_of_fits hbody (hparts f) ?_)
    cases f with
    | mqtt => exact Or.inl hbroker
    | devid | ssid | pass | muser | mpass => exact Or.inr rfl
  have hargs := (saveArgs_originals_iff s segment).mpr fun f _ => htext f
  have hlogin : flash.login (PortalRequest.form ⟨s.body, segment⟩) =
      { flash with keys := { flash.keys with muser := none, mpass := none } } := by
    have huser := htext muser
    have hpass := htext mpass
    rw [savedText_of_unset rfl, s.others.1] at huser
    rw [savedText_of_unset rfl, s.others.2] at hpass
    exact congrArg₂ (fun u p => { flash with keys := { flash.keys with muser := u, mpass := p } })
      (if_pos huser) (if_pos hpass)
  rw [handleConfig_of_saveArgs hargs, hlogin]
  rfl

end

/-- A passphrase of 41 exclamation marks: 123 bytes in its encoding. -/
def loudForm : FilledForm where
  value
    | ssid => "home".toList
    | .pass => List.replicate 41 '!'
    | mqtt => "10.0.0.1".toList
    | devid | muser | mpass => []
  encoded f := formEncode (match f with
    | ssid => "home".toList
    | .pass => List.replicate 41 '!'
    | mqtt => "10.0.0.1".toList
    | devid | muser | mpass => [])
  order := all
  encodes f := by
    apply encodes_formEncode
    cases f <;> decide
  order_all := List.Perm.refl _
  nulFree f := by cases f <;> decide
  ssid_length := by decide
  pass_length := by decide
  devid_length := by decide
  mqtt_length := by decide
  others := ⟨rfl, rfl⟩

/-- It arrives whole in the body, and its last mark as the stub `%2`. -/
theorem loudForm_not_exact :
    ¬ ∀ (s : FilledForm) (segment : Nat), s.body.length ≤ segment →
      PortalRequest.saveArgs ⟨s.body, segment⟩ = some s.originals := by
  intro h
  have hargs := h loudForm 511 (by decide +kernel)
  have hpass := congrArg (Option.map SaveArgs.pass) hargs
  exact absurd hpass (by decide +kernel)

/-- A form with a plain password, in the order of the page. -/
def quietForm : FilledForm where
  value
    | ssid => "home".toList
    | .pass => "a b".toList
    | mqtt => "10.0.0.1".toList
    | devid | muser | mpass => []
  encoded f := formEncode (match f with
    | ssid => "home".toList
    | .pass => "a b".toList
    | mqtt => "10.0.0.1".toList
    | devid | muser | mpass => [])
  order := all
  encodes f := by
    apply encodes_formEncode
    cases f <;> decide
  order_all := List.Perm.refl _
  nulFree f := by cases f <;> decide
  ssid_length := by decide
  pass_length := by decide
  devid_length := by decide
  mqtt_length := by decide
  others := ⟨rfl, rfl⟩

theorem quietForm_stored :
    (handleConfig {} ⟨quietForm.body, 511⟩).1 = .saved ∧
      (handleConfig {} ⟨quietForm.body, 511⟩).2 =
        Flash.provSave {} "home".toList "a b".toList [] "10.0.0.1".toList := by
  have hparts : ∀ f, (quietForm.part f).length ≤ 127 := by
    intro f
    cases f <;> decide
  have hstored := @form_stored quietForm 511 (by decide +kernel) hparts (by decide) {}
  rw [hstored]
  exact ⟨rfl, rfl⟩

end Htsn.Esp32

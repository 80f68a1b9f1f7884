import WirelessTsn.Esp32.Commands
import WirelessTsn.Lib.JsonText

/-!
The update that the firmware tab of Node-RED starts: the function node `flash cmd`
(`htsn-nodered/flow-production.json`) writes the command for the newest row of the
firmware table, and the `ota` branch of the ESP32 agent reads it. The node takes
the checksum from a member that the rows do not have, so `JSON.stringify` leaves
it out and the agent never compares one.
-/

namespace Htsn.NodeRed

open CText Json JsonText Esp32

/-! ### The command -/

/-- A value of a row. -/
inductive JsValue where
  | null
  | number (n : Int)
  | text (s : CStr)

/-- A value behind a plus sign and a string. -/
def JsValue.string : JsValue → CStr
  | .null => "null".toList
  | .number n => showInt n
  | .text s => s

/-- A row of `read firmware`. -/
structure FirmwareRow where
  file : JsValue
  version : JsValue
  size : JsValue
  crc32 : JsValue
  kind : JsValue
  uploadedAt : JsValue

/-- The member of a row under a name; `none` is undefined. -/
def FirmwareRow.get (row : FirmwareRow) (name : CStr) : Option JsValue :=
  [("file".toList, row.file), ("version".toList, row.version), ("size".toList, row.size),
    ("crc32".toList, row.crc32), ("kind".toList, row.kind),
    ("uploaded_at".toList, row.uploadedAt)].lookup name

/-- A digit of `\u00..` -/
def lowHex (n : Nat) : Char := Nat.digitChar (n % 16)

/-- A character in a string of `JSON.stringify`. -/
def stringifyChar (c : Char) : CStr :=
  if c = '"' then ['\\', '"']
  else if c = '\\' then ['\\', '\\']
  else if c = '\x08' then ['\\', 'b']
  else if c = '\x0c' then ['\\', 'f']
  else if c = '\n' then ['\\', 'n']
  else if c = '\r' then ['\\', 'r']
  else if c = '\t' then ['\\', 't']
  else if c < ' ' then ['\\', 'u', '0', '0', lowHex (c.toNat / 16), lowHex c.toNat]
  else [c]

/-- The text of `JSON.stringify` for a value. -/
def JsValue.json : JsValue → CStr
  | .null => "null".toList
  | .number n => showInt n
  | .text s => '"' :: (s.flatMap stringifyChar ++ ['"'])

/-- `JSON.stringify` of an object, which passes over what is undefined. -/
def stringify (members : List (CStr × Option JsValue)) : CStr :=
  '\x7b' :: (commaSep (members.filterMap fun m => m.2.map fun v => '"' :: (m.1 ++ "\":".toList ++ v.json)) ++
    ['\x7d'])

/-- `url` of `flash cmd` -/
def flashUrl (fw : FirmwareRow) : CStr :=
  "http://".toList ++ "192.168.0.183".toList ++ ":8000/fw/".toList ++
    ((fw.get "file".toList).elim "undefined".toList JsValue.string)

/-- `msg.payload` of `flash cmd` -/
def flashPayload (fw : FirmwareRow) : CStr :=
  stringify [("url".toList, some (.text (flashUrl fw))), ("crc32".toList, fw.get "crc".toList),
    ("version".toList, fw.get "ver".toList)]

/-- `flash cmd`: the topic and the payload for the chosen device. -/
def flashCmd (did : CStr) (fws : List FirmwareRow) : Option (CStr × CStr) :=
  if did = [] then none
  else fws.head?.map fun fw => ("tsn/cmd/".toList ++ did ++ "/ota".toList, flashPayload fw)

theorem flashPayload_eq (fw : FirmwareRow) :
    flashPayload fw =
      '\x7b' :: ("\"url\":\"".toList ++ ((flashUrl fw).flatMap stringifyChar ++ ['"', '\x7d'])) := by
  simp [flashPayload, stringify, FirmwareRow.get, List.lookup_cons, commaSep, commaPieces, JsValue.json]

/-! ### A key that no colon follows -/

theorem skipNested_suffix (opening closing : Char) (d : Nat) (p : CStr) :
    skipNested opening closing d p <:+ p := by
  induction p generalizing d with
  | nil => cases d <;> exact List.nil_suffix
  | cons c p ih =>
      cases d with
      | zero => exact List.suffix_rfl
      | succ d =>
          rw [skipNested]
          split
          · exact (ih _).trans (List.suffix_cons c p)
          · split
            · exact (ih _).trans (List.suffix_cons c p)
            · exact (ih _).trans (List.suffix_cons c p)

theorem splitQuote_eq {s k rest : CStr} (h : splitQuote s = some (k, rest)) : s = k ++ '"' :: rest := by
  rw [splitQuote] at h
  split at h
  · cases h
  · next c rest' hdrop =>
      cases h
      have hquote : c = '"' := by
        have hhead := List.head_dropWhile_not (l := s) (· != '"') (by rw [hdrop]; exact List.cons_ne_nil _ _)
        simpa [hdrop] using hhead
      have hwhole := List.takeWhile_append_dropWhile (p := (· != '"')) (l := s)
      rw [hdrop, hquote] at hwhole
      exact hwhole.symm

theorem skipValue_suffix (val : CStr) : skipValue val <:+ val := by
  cases val with
  | nil => exact List.suffix_rfl
  | cons c v =>
      rw [skipValue]
      split
      · split
        · next k rest hsplit =>
            rw [splitQuote_eq hsplit]
            exact ⟨c :: (k ++ ['"']), by simp⟩
        · exact List.suffix_cons c v
      · split
        · exact (skipNested_suffix _ _ _ _).trans (List.suffix_cons c v)
        · split
          · exact (skipNested_suffix _ _ _ _).trans (List.suffix_cons c v)
          · exact List.dropWhile_suffix _

/-- Behind a quote that follows `last` there is no colon. -/
def Unclosed (last : Char) (p : CStr) : Prop :=
  ∀ pre rest, p = pre ++ last :: '"' :: rest → (skipws rest).head? ≠ some ':'

theorem Unclosed.suffix {last : Char} {p q : CStr} (h : Unclosed last p) (hq : q <:+ p) : Unclosed last q := by
  obtain ⟨front, rfl⟩ := hq
  intro pre rest hrest
  exact h (front ++ pre) rest (by rw [hrest, List.append_assoc])

/-- The text is used up or ends in a closing bracket. -/
def EndsClosed (p : CStr) : Prop := ∀ c ∈ p.getLast?, c = '\x7d'

theorem EndsClosed.suffix {p q : CStr} (h : EndsClosed p) (hq : q <:+ p) : EndsClosed q := by
  obtain ⟨front, rfl⟩ := hq
  intro c hc
  refine h c ?_
  rw [List.getLast?_append, Option.mem_def.mp hc]
  rfl

/-- There is more than white space in it. -/
theorem EndsClosed.skipws_ne_nil {p : CStr} (h : EndsClosed p) (hp : p ≠ []) : skipws p ≠ [] := by
  intro hskip
  have hlast := h (p.getLast hp) (List.getLast?_eq_some_getLast hp)
  have hws := List.dropWhile_eq_nil_iff.mp hskip (p.getLast hp) (List.getLast_mem hp)
  rw [hlast] at hws
  cases hws

/-- A text where no colon follows the end of the key has no value for it. -/
theorem probeValue_absent {key : CStr} {last : Char} (hkey : key.getLast? = some last) {p : CStr}
    (hopen : Unclosed last p) (hend : EndsClosed p) : probeValue p key = .absent := by
  induction hlen : p.length using Nat.strong_induction_on generalizing p with
  | _ n ih =>
      have hnext : ∀ {q}, probeBody key p = .next q → q <:+ p → probeValue p key = .absent := by
        intro q hbody hq
        rw [probeValue_next hbody]
        exact ih q.length (hlen ▸ probeBody_length key p q hbody) (hopen.suffix hq) (hend.suffix hq) rfl
      rcases eq_or_ne p [] with rfl | hp
      · exact probeValue_done rfl
      · obtain ⟨c, ks, hskip⟩ := List.exists_cons_of_ne_nil (hend.skipws_ne_nil hp)
        have hsuffix : c :: ks <:+ p := hskip ▸ List.dropWhile_suffix _
        have hks : ks <:+ p := (List.suffix_cons c ks).trans hsuffix
        rcases ne_or_eq c '"' with hc | hc
        · refine hnext ?_ hks
          rw [probeBody, if_neg hp, hskip]
          exact if_pos hc
        · cases hsplit : splitQuote ks with
          | none =>
              apply probeValue_done
              rw [probeBody, if_neg hp, hskip]
              simp [hc, hsplit]
          | some found =>
              obtain ⟨k, rest⟩ := found
              have hwhole := splitQuote_eq hsplit
              have hbehind : rest <:+ ks := ⟨k ++ ['"'], by rw [hwhole]; simp⟩
              have hrest : rest <:+ p := hbehind.trans hks
              have hmore : rest ≠ [] := by
                rintro rfl
                exact absurd (hend.suffix hks '"' (by rw [hwhole]; simp)) (by decide)
              obtain ⟨c', v, hskip'⟩ := List.exists_cons_of_ne_nil ((hend.suffix hrest).skipws_ne_nil hmore)
              have hv : v <:+ p := ((List.suffix_cons c' v).trans (hskip' ▸ List.dropWhile_suffix _)).trans hrest
              rcases ne_or_eq c' ':' with hcolon | hcolon
              · refine hnext ?_ hv
                rw [probeBody, if_neg hp, hskip]
                simp [hc, hsplit, hskip', hcolon]
              · rcases eq_or_ne k key with rfl | hne
                · obtain ⟨front, hfront⟩ := List.getLast?_eq_some_iff.mp hkey
                  refine absurd ?_ (hopen.suffix hks front rest (by rw [hwhole, hfront]; simp))
                  rw [hskip', hcolon]
                  rfl
                · have hvalue : skipValue (skipws v) <:+ v :=
                    (skipValue_suffix _).trans (List.dropWhile_suffix _)
                  refine hnext ?_ (hvalue.trans hv)
                  rw [probeBody, if_neg hp, hskip]
                  simp [hc, hsplit, hskip', hcolon, hne]

/-! ### What the agent reads -/

/-- No quote follows a two. -/
def Apart : CStr → Prop := List.IsChain fun a b => b = '"' → a ≠ '2'

theorem lowHex_ne_quote (n : Nat) : lowHex n ≠ '"' := by
  have hall : ∀ k : Fin 16, Nat.digitChar k ≠ '"' := by decide
  exact hall ⟨n % 16, Nat.mod_lt n (by decide)⟩

theorem stringifyChar_apart (c : Char) :
    Apart (stringifyChar c) ∧ (stringifyChar c).head? ≠ some '"' := by
  unfold stringifyChar Apart
  split
  · exact ⟨by simp, by simp⟩
  · next hquote =>
      repeat' split
      all_goals simp [hquote, lowHex_ne_quote]

theorem stringified_apart (s : CStr) :
    Apart (s.flatMap stringifyChar) ∧ (s.flatMap stringifyChar).head? ≠ some '"' := by
  induction s with
  | nil => exact ⟨List.isChain_nil, nofun⟩
  | cons c s ih =>
      have hc := stringifyChar_apart c
      rw [List.flatMap_cons]
      refine ⟨List.isChain_append.mpr ⟨hc.1, ih.1, fun a _ b hb hquote => ?_⟩, ?_⟩
      · exact absurd (hquote ▸ hb) ih.2
      · rw [List.head?_append]
        cases hhead : (stringifyChar c).head? with
        | none => exact ih.2
        | some d =>
            rw [hhead] at hc
            exact hc.2

theorem flashPayload_unclosed (fw : FirmwareRow) : Unclosed '2' (flashPayload fw) := by
  have hchain : Apart ('\x7b' :: ("\"url\":\"".toList ++ (flashUrl fw).flatMap stringifyChar)) := by
    have hstart : Apart ('\x7b' :: "\"url\":\"".toList) := by simp [Apart]
    have hurl := stringified_apart (flashUrl fw)
    refine List.isChain_append.mpr ⟨hstart, hurl.1, fun a _ b hb hquote => ?_⟩
    exact absurd (hquote ▸ hb) hurl.2
  intro pre rest hpayload
  have hwhole : ('\x7b' :: ("\"url\":\"".toList ++ (flashUrl fw).flatMap stringifyChar) ++ ['"']) ++ ['\x7d'] =
      pre ++ '2' :: '"' :: rest := by
    rw [← hpayload, flashPayload_eq]
    simp
  rcases List.eq_nil_or_concat rest with rfl | ⟨front, last, rfl⟩
  · exact nofun
  · have hcut := List.append_inj' (hwhole.trans (by simp : _ = (pre ++ '2' :: '"' :: front) ++ [last])) rfl
    obtain rfl : '\x7d' = last := by simpa using hcut.2
    rcases List.eq_nil_or_concat front with rfl | ⟨front, last, rfl⟩
    · exact fun h => absurd h (by decide)
    · have hinside := List.append_inj' (hcut.1.trans (by simp : _ = (pre ++ '2' :: '"' :: front) ++ [last])) rfl
      rw [hinside.1] at hchain
      have hpair := (List.isChain_append.mp hchain).2.1
      exact absurd rfl ((List.isChain_cons_cons.mp hpair).1 rfl)

theorem flashPayload_endsClosed (fw : FirmwareRow) : EndsClosed (flashPayload fw) := by
  have hsplit : flashPayload fw =
      ('\x7b' :: ("\"url\":\"".toList ++ ((flashUrl fw).flatMap stringifyChar ++ ['"']))) ++ ['\x7d'] := by
    rw [flashPayload_eq]
    simp
  intro c hc
  rw [hsplit, List.getLast?_concat] at hc
  exact (Option.some.inj hc).symm

/-- A text of ordinary characters stands in the payload as it is. -/
theorem stringify_plain {s : CStr} (h : ∀ c ∈ s, IsStrChar c) : s.flatMap stringifyChar = s := by
  have hchar : ∀ c, IsStrChar c → stringifyChar c = [c] := by
    rintro c ⟨hblank, hquote, hback⟩
    have hlow : ∀ d : Char, d < ' ' → c ≠ d := by
      rintro d hd rfl
      exact absurd hblank (Char.not_le.mpr hd)
    simp [stringifyChar, hquote, hback, hlow, Char.not_lt.mpr hblank]
  induction s with
  | nil => rfl
  | cons c s ih =>
      rw [List.flatMap_cons, hchar c (h c List.mem_cons_self), ih fun x hx => h x (List.mem_cons_of_mem c hx)]
      rfl

theorem probeValue_url (fw : FirmwareRow) :
    probeValue (flashPayload fw) "url".toList =
      .found ('"' :: ((flashUrl fw).flatMap stringifyChar ++ ['"', '\x7d'])) := by
  rw [flashPayload_eq, probeValue_step (by decide) (by decide)]
  exact (probeValue_key "url".toList .none .none (k := "url".toList) (by decide) rfl).trans (if_pos rfl)

theorem flashPayload_crc (fw : FirmwareRow) (behind : List CStr) :
    getStrIn (flashPayload fw :: behind) "crc32".toList 16 = none := by
  have habsent := @probeValue_absent "crc32".toList _ rfl _ (flashPayload_unclosed fw)
    (flashPayload_endsClosed fw)
  rw [getStrIn, readIn, probeIn, habsent]
  rfl

theorem flashPayload_url {fw : FirmwareRow} (hplain : ∀ c ∈ flashUrl fw, IsStrChar c) (behind : List CStr) :
    getStrIn (flashPayload fw :: behind) "url".toList 256 = some ((flashUrl fw).take 255) := by
  have hquote : '"' ∉ flashUrl fw := fun hmem => (hplain _ hmem).2.1 rfl
  rw [getStrIn, readIn, probeIn, probeValue_url, stringify_plain hplain]
  simp [readStr, splitQuote_append hquote]

/-- The update of such a command has no checksum. -/
theorem onOta_flash (fw : FirmwareRow) (n : Node) (topic : CStr) (behind : List CStr) (started : Bool) :
    ∀ update ∈ (n.onOta ⟨topic, flashPayload fw, behind, started⟩).ota, update.2 = none := by
  simp only [Node.onOta, flashPayload_crc]
  split
  · intro update hupdate
    cases hupdate
    rfl
  · exact nofun

/-- No other branch starts an update. -/
theorem onCommand_ota (n : Node) (m : Message) :
    (n.onCommand m).ota = none ∨ (n.onCommand m).ota = (n.onOta m).ota := by
  unfold Node.onCommand
  cases route m.topic with
  | feed => exact Or.inl rfl
  | apply => exact Or.inl rfl
  | unknown => exact Or.inl rfl
  | command c =>
      cases c with
      | ota => exact Or.inr rfl
      | wifi =>
          simp only [Node.handle, Node.crateSetWifi]
          split <;> exact Or.inl rfl
      | addWifi =>
          simp only [Node.handle, Node.addWifi]
          split <;> exact Or.inl rfl
      | stream =>
          simp only [Node.handle, Node.onStream]
          split
          · exact Or.inl rfl
          · split <;> exact Or.inl rfl
      | _ => exact Or.inl rfl

/-- The tab starts an update of the first board for the newest image, at a long
address cut to what fits. Whatever the table holds and whichever device is chosen,
no update that its command starts has a checksum to compare. -/
theorem flash_unchecked (fws : List FirmwareRow) (n : Node) (behind : List CStr) :
    (∀ fw ∈ fws.head?, (∀ c ∈ flashUrl fw, IsStrChar c) →
      ∃ cmd, flashCmd "esp32-01".toList fws = some cmd ∧
        (n.onCommand ⟨cmd.1, cmd.2, behind, true⟩).ota = some ((flashUrl fw).take 255, none)) ∧
    ∀ did, ∀ cmd ∈ flashCmd did fws, ∀ started,
      ∀ update ∈ (n.onCommand ⟨cmd.1, cmd.2, behind, started⟩).ota, update.2 = none := by
  constructor
  · intro fw hfw hplain
    have hroute : route ("tsn/cmd/".toList ++ "esp32-01".toList ++ "/ota".toList) = .command .ota := by decide
    have hhttp : flashUrl fw ≠ [] := List.cons_ne_nil 'h' _
    have hstart : (flashUrl fw).take 255 ≠ [] := by
      rw [Ne, List.take_eq_nil_iff]
      exact not_or.mpr ⟨nofun, hhttp⟩
    refine ⟨("tsn/cmd/".toList ++ "esp32-01".toList ++ "/ota".toList, flashPayload fw), ?_, ?_⟩
    · rw [flashCmd, if_neg (by decide), Option.mem_def.mp hfw]
      rfl
    · simp only [Node.onCommand, hroute, Node.handle, Node.onOta, flashPayload_crc, flashPayload_url hplain]
      simp [hstart]
  · intro did cmd hcmd started update hupdate
    obtain ⟨fw, -, rfl⟩ : ∃ fw, fws.head? = some fw ∧
        ("tsn/cmd/".toList ++ did ++ "/ota".toList, flashPayload fw) = cmd := by
      rw [flashCmd] at hcmd
      split at hcmd
      · cases hcmd
      · exact Option.map_eq_some_iff.mp hcmd
    rcases onCommand_ota n ⟨_, flashPayload fw, behind, started⟩ with hnone | hota
    · rw [hnone] at hupdate
      cases hupdate
    · rw [hota] at hupdate
      exact onOta_flash fw n _ behind started update hupdate

end Htsn.NodeRed

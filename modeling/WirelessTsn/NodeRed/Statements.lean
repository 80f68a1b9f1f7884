import Mathlib.Data.Vector.Basic
import WirelessTsn.Lib.SqlText

/-!
The function nodes of `htsn-nodered/flow-production.json` that write to the
database. Each has a statement with a question mark for every parameter, and
`embedParams` puts the parameters in, from the left, into the text that it has
got so far. A question mark inside a parameter is taken for the place of the
next one.
-/

namespace Htsn.NodeRed

open CText SqlText

/-- What `String` gives for a number: neither a quote nor a mark stands in it. -/
structure NumberText where
  text : CStr
  nonempty : text ≠ []
  plain : ∀ c ∈ text, c ≠ quote ∧ c ≠ '?'

/-- A parameter; what is neither null nor boolean nor number is taken as a
string. -/
inductive SqlParam where
  | null
  | bool (b : Bool)
  | number (n : NumberText)
  | string (s : CStr)

/-- `ev` in `embedParams`. -/
def SqlParam.embed : SqlParam → CStr
  | .null => "NULL".toList
  | .bool b => if b then "1".toList else "0".toList
  | .number n => n.text
  | .string s => literal s

/-- `sql.substring(0,idx)+ev+sql.substring(idx+1)` at the first mark. -/
def embedFirst (sql ev : CStr) : CStr :=
  sql.takeWhile (· ≠ '?') ++ ev ++ (sql.dropWhile (· ≠ '?')).drop 1

def embedParams (sql : CStr) : List SqlParam → CStr
  | [] => sql
  | v :: params => if '?' ∈ sql then embedParams (embedFirst sql v.embed) params else sql

/-! ### What a statement is meant to say -/

/-- A parameter as SQL is to read it. -/
def SqlParam.meaning : SqlParam → List Token
  | .string s => [.text s]
  | v => v.embed.map .char

/-- The parameters with the pieces of the statement behind them. -/
def meaning : List SqlParam → List CStr → List Token
  | v :: params, p :: pieces => v.meaning ++ tokens .outside p ++ meaning params pieces
  | _, _ => []

/-- The statement from the first mark on. -/
def template (pieces : List CStr) : CStr := pieces.flatMap fun p => '?' :: p

/-- A piece leaves no literal open and does not go on with one. -/
def Closed (p : CStr) : Prop := State.after .outside p = .outside ∧ p.head? ≠ some quote

instance (p : CStr) : Decidable (Closed p) := inferInstanceAs (Decidable (_ ∧ _))

/-- Marks stand in the last piece only. -/
def Pieces : List CStr → Prop
  | [] => True
  | p :: pieces => Closed p ∧ (pieces ≠ [] → p ≠ [] ∧ '?' ∉ p) ∧ Pieces pieces

instance decidablePieces : ∀ pieces, Decidable (Pieces pieces)
  | [] => isTrue trivial
  | _ :: pieces => @instDecidableAnd _ _ _ (@instDecidableAnd _ _ _ (decidablePieces pieces))

/-! ### One parameter -/

theorem takeWhile_mark {u : CStr} (h : '?' ∉ u) (w : CStr) :
    (u ++ '?' :: w).takeWhile (· ≠ '?') = u ∧ (u ++ '?' :: w).dropWhile (· ≠ '?') = '?' :: w := by
  induction u with
  | nil => exact ⟨rfl, rfl⟩
  | cons c u ih =>
      have hc : c ≠ '?' := fun heq => h (heq ▸ List.mem_cons_self)
      obtain ⟨htake, hdrop⟩ := ih fun hu => h (List.mem_cons_of_mem c hu)
      constructor
      · rw [List.cons_append, List.takeWhile_cons_of_pos (by simpa using hc), htake]
      · rw [List.cons_append, List.dropWhile_cons_of_pos (by simpa using hc), hdrop]

theorem embedFirst_append {u : CStr} (h : '?' ∉ u) (w ev : CStr) :
    embedFirst (u ++ '?' :: w) ev = u ++ ev ++ w := by
  obtain ⟨htake, hdrop⟩ := takeWhile_mark h w
  rw [embedFirst, htake, hdrop]
  rfl

/-- What has no mark is done with. -/
theorem embedParams_append {u : CStr} (h : '?' ∉ u) (w : CStr) (params : List SqlParam) :
    embedParams (u ++ w) params = u ++ embedParams w params := by
  induction params generalizing w with
  | nil => rfl
  | cons v params ih =>
      have hmem : '?' ∈ u ++ w ↔ '?' ∈ w := by simp [h]
      rw [embedParams, embedParams]
      rcases Decidable.em ('?' ∈ w) with hw | hw
      · obtain ⟨w₁, w₂, rfl, hfirst⟩ := List.eq_append_cons_of_mem hw
        have hfront : '?' ∉ u ++ w₁ := by simp [h, hfirst]
        rw [if_pos hw, if_pos (hmem.mpr hw), ← List.append_assoc, embedFirst_append hfront, embedFirst_append hfirst,
          ← ih, List.append_assoc, List.append_assoc, List.append_assoc]
      · rw [if_neg hw, if_neg fun hin => hw (hmem.mp hin)]

/-- The next parameter goes to the mark that comes first. -/
theorem embedParams_mark (v : SqlParam) (w : CStr) (params : List SqlParam) :
    embedParams ('?' :: w) (v :: params) = embedParams (v.embed ++ w) params := by
  rw [embedParams, if_pos List.mem_cons_self]
  exact congrArg (embedParams · params) (embedFirst_append (List.not_mem_nil) w v.embed)

/-- A parameter is not empty, and it begins with no mark. -/
theorem SqlParam.exists_embed (v : SqlParam) : ∃ c s, v.embed = c :: s ∧ c ≠ '?' := by
  cases v with
  | null => exact ⟨'N', "ULL".toList, rfl, by decide⟩
  | bool b =>
      cases b with
      | true => exact ⟨'1', [], rfl, by decide⟩
      | false => exact ⟨'0', [], rfl, by decide⟩
  | number n =>
      obtain ⟨c, s, hn⟩ := List.exists_cons_of_ne_nil n.nonempty
      exact ⟨c, s, hn, (n.plain c (hn ▸ List.mem_cons_self)).2⟩
  | string t => exact ⟨quote, doubled t ++ [quote], rfl, by decide⟩

/-- Read where no literal goes on behind it, a parameter is what it is meant to
be. -/
theorem SqlParam.tokens_embed (v : SqlParam) {rest : CStr} (h : rest.head? ≠ some quote) :
    tokens .outside (v.embed ++ rest) = v.meaning ++ tokens .outside rest := by
  have hplain : ∀ {s : CStr}, quote ∉ s → tokens .outside (s ++ rest) = s.map .char ++ tokens .outside rest := by
    intro s hs
    obtain ⟨htokens, hafter⟩ := tokens_chars hs
    rw [tokens_append hafter, htokens]
  cases v with
  | null => exact hplain (by decide)
  | bool b =>
      cases b with
      | true => exact hplain (by decide)
      | false => exact hplain (by decide)
  | number n => exact hplain fun hq => (n.plain quote hq).1 rfl
  | string s => exact tokens_literal s h

/-- The doubled text has its marks where the text has them. -/
theorem doubled_mark {pre post : CStr} :
    doubled (pre ++ '?' :: post) = doubled pre ++ '?' :: doubled post := by
  have hmark : ('?' : Char) ≠ quote := by decide
  rw [doubled, List.flatMap_append, List.flatMap_cons, if_neg hmark]
  rfl

theorem mark_mem_doubled {s : CStr} : '?' ∈ doubled s ↔ '?' ∈ s := by
  have hmark : ('?' : Char) ≠ quote := by decide
  rw [doubled, List.mem_flatMap]
  constructor
  · rintro ⟨c, hc, hin⟩
    split at hin
    · simp [hmark] at hin
    · rw [List.mem_singleton.mp hin]
      exact hc
  · intro h
    exact ⟨'?', h, by simp [hmark]⟩

/-- Only a string can have a mark. -/
theorem SqlParam.exists_of_mark {v : SqlParam} (h : '?' ∈ v.embed) : ∃ s, v = .string s ∧ '?' ∈ s := by
  cases v with
  | null => exact absurd h (by decide)
  | bool b =>
      cases b with
      | true => exact absurd h (by decide)
      | false => exact absurd h (by decide)
  | number n => exact absurd rfl (n.plain '?' h).2
  | string s =>
      refine ⟨s, rfl, mark_mem_doubled.mp ?_⟩
      have hmark : ('?' : Char) ≠ quote := by decide
      simpa [embed, literal, hmark] using h

/-! ### All parameters -/

theorem template_cons (p : CStr) (pieces : List CStr) : template (p :: pieces) = '?' :: (p ++ template pieces) :=
  List.flatMap_cons

/-- Behind a piece comes no apostrophe. -/
theorem head_piece {p : CStr} {pieces : List CStr} (h : Pieces (p :: pieces)) (rest : CStr)
    (hrest : pieces = [] → rest = []) : (p ++ rest).head? ≠ some quote := by
  cases p with
  | nil =>
      have hnil : pieces = [] := by
        by_contra hne
        exact (h.2.1 hne).1 rfl
      rw [hrest hnil]
      simp
  | cons c p => exact h.1.2

/-- Without a mark in a parameter other than the last one, every parameter goes
to its place. -/
theorem embedParams_read {pieces : List CStr} {params : List SqlParam} (h : Pieces pieces)
    (hlen : params.length = pieces.length) (hparams : ∀ v ∈ params.dropLast, '?' ∉ v.embed) :
    tokens .outside (embedParams (template pieces) params) = meaning params pieces := by
  induction pieces generalizing params with
  | nil =>
      rw [List.length_eq_zero_iff.mp hlen]
      rfl
  | cons p pieces ih =>
      obtain ⟨v, params, rfl⟩ := List.exists_cons_of_length_eq_add_one hlen
      rw [template_cons, embedParams_mark, meaning]
      cases pieces with
      | nil =>
          have hnil : params = [] := List.length_eq_zero_iff.mp (Nat.succ.inj hlen)
          have hend : template [] = [] := rfl
          rw [hnil, embedParams, hend, v.tokens_embed (head_piece h _ fun _ => rfl), tokens_append h.1.1]
          simp [NodeRed.meaning, tokens, State.finish]
      | cons q pieces =>
          obtain ⟨w, params, rfl⟩ := List.exists_cons_of_length_eq_add_one (Nat.succ.inj hlen)
          rw [List.dropLast_cons_of_ne_nil (List.cons_ne_nil _ _)] at hparams
          have hv : '?' ∉ v.embed := hparams v List.mem_cons_self
          have hrest := ih h.2.2 (Nat.succ.inj hlen) fun u hu => hparams u (List.mem_cons_of_mem v hu)
          have hfront : '?' ∉ v.embed ++ p := by simp [hv, (h.2.1 (List.cons_ne_nil _ _)).2]
          rw [← List.append_assoc, embedParams_append hfront, List.append_assoc,
            v.tokens_embed (head_piece h _ fun hnil => absurd hnil (List.cons_ne_nil _ _)), tokens_append h.1.1, hrest,
            List.append_assoc]

/-- The first parameter with a mark is read as a different text. -/
theorem embedParams_misread {pieces : List CStr} {params : List SqlParam} (h : Pieces pieces)
    (hlen : params.length = pieces.length) (hparams : ∃ v ∈ params.dropLast, '?' ∈ v.embed) :
    tokens .outside (embedParams (template pieces) params) ≠ meaning params pieces := by
  induction pieces generalizing params with
  | nil =>
      obtain ⟨v, hv, -⟩ := hparams
      rw [List.length_eq_zero_iff.mp hlen] at hv
      cases hv
  | cons p pieces ih =>
      obtain ⟨v, params, rfl⟩ := List.exists_cons_of_length_eq_add_one hlen
      rw [template_cons, embedParams_mark, meaning]
      cases pieces with
      | nil =>
          obtain ⟨u, hu, -⟩ := hparams
          rw [List.length_eq_zero_iff.mp (Nat.succ.inj hlen)] at hu
          cases hu
      | cons q pieces =>
          obtain ⟨w, params, rfl⟩ := List.exists_cons_of_length_eq_add_one (Nat.succ.inj hlen)
          rcases Decidable.em ('?' ∈ v.embed) with hv | hv
          · -- The next parameter goes into the literal of this one.
            obtain ⟨s, rfl, hs⟩ := SqlParam.exists_of_mark hv
            obtain ⟨pre, post, rfl, hpre⟩ := List.eq_append_cons_of_mem hs
            obtain ⟨c, e, hw, hc⟩ := w.exists_embed
            have hfront : '?' ∉ quote :: doubled pre := by
              have hmark : ('?' : Char) ≠ quote := by decide
              simp [hmark, mark_mem_doubled, hpre]
            have hsplit : SqlParam.embed (.string (pre ++ '?' :: post)) ++ (p ++ template (q :: pieces)) =
                (quote :: doubled pre) ++ '?' :: (doubled post ++ [quote] ++ (p ++ template (q :: pieces))) := by
              simp [SqlParam.embed, literal, doubled_mark]
            have hinto : ∀ Z : CStr, embedParams (w.embed ++ Z) params = c :: embedParams (e ++ Z) params := by
              intro Z
              have hone : '?' ∉ [c] := by simpa using hc.symm
              rw [hw]
              exact embedParams_append hone (e ++ Z) params
            have hquote : ∀ Y : CStr, tokens .outside ((quote :: doubled pre) ++ Y) = tokens (.inside pre) Y :=
              fun Y => tokens_doubled [] pre Y
            rw [hsplit, embedParams_append hfront, embedParams_mark, hinto, hquote]
            exact tokens_inside_ne hc ⟨post, by simp⟩ _
          · have hrest : ∃ u ∈ (w :: params).dropLast, '?' ∈ u.embed := by
              obtain ⟨u, hu, hmark⟩ := hparams
              rw [List.dropLast_cons_of_ne_nil (List.cons_ne_nil _ _)] at hu
              rcases List.mem_cons.mp hu with rfl | hu
              · exact absurd hmark hv
              · exact ⟨u, hu, hmark⟩
            have hfront : '?' ∉ v.embed ++ p := by simp [hv, (h.2.1 (List.cons_ne_nil _ _)).2]
            rw [← List.append_assoc, embedParams_append hfront, List.append_assoc,
              v.tokens_embed (head_piece h _ fun hnil => absurd hnil (List.cons_ne_nil _ _)), tokens_append h.1.1,
              List.append_assoc]
            intro heq
            exact ih h.2.2 (Nat.succ.inj hlen) hrest
              (List.append_cancel_left (List.append_cancel_left heq))

/-! ### The nodes -/

/-- The nodes with a statement; `save settings` has two. -/
inductive FlowNode where
  | buildAddSql
  | saveVersion
  | qosSql
  | vlanSql
  | tasSql
  | writeGcl
  | preemptionSql
  | streamSql
  | streamMembers
  | tsyncSql
  | processUpload
  | saveBroker
  | saveLlmUrl
  | parseAck
  | parseStatus
  | parseDiscover
  | parseLwt
  | parsePtp
  | parseFx
  | parseSonar
  | parseRecordings
deriving DecidableEq

/-- `msg.topic` of a node, before the parameters are put in, in pieces. -/
def FlowNode.words : FlowNode → List String
  | .buildAddSql =>
      ["INSERT OR ", "REPLACE INTO ", "devices(id,", "name,ip,mac,", "kind,firmware,", "status,", "last_seen,",
        "domain,usb) ", "VALUES(?,?,?,", "?,0,?,0,", "strftime('%s',", "'now'),?,?)"]
  | .saveVersion =>
      ["INSERT INTO ", "config_versions(", "name,", "device_id,", "created_at,", "payload) ", "VALUES(?,?,?,",
        "?)"]
  | .qosSql =>
      ["INSERT OR ", "REPLACE INTO ", "qos_configs(", "device_id,", "priority,", "traffic_class,",
        "bandwidth_kbps,", "latency_ms,", "preemption) ", "VALUES(?,?,?,", "?,?,?)"]
  | .vlanSql =>
      ["INSERT OR ", "REPLACE INTO ", "vlan_groups(", "id,name,", "vlan_id) ", "VALUES(?,?,?)"]
  | .tasSql =>
      ["INSERT OR ", "REPLACE INTO ", "tas_schedules(", "id,name,", "cycle_time_ns,", "deploy_target) ",
        "VALUES(?,?,?,", "?)"]
  | .writeGcl =>
      ["DELETE FROM ", "gcl_entries ", "WHERE ", "schedule_id=?"]
  | .preemptionSql =>
      ["INSERT OR ", "REPLACE INTO ", "preemption_configs(", "device_id,", "preemption,", "emac,pmac) ",
        "VALUES(?,?,?,", "?)"]
  | .streamSql =>
      ["INSERT OR ", "REPLACE INTO ", "tsn_streams(", "stream_id,", "name,talker,", "vlan_id,",
        "max_latency_ns,", "max_interval_ns,", "priority,", "data_frame_prio,", "status,", "comment) ",
        "VALUES(?,?,?,", "?,100000000,", "1000000,5,5,0,", "'')"]
  | .streamMembers =>
      ["DELETE FROM ", "tsn_stream_members ", "WHERE ", "stream_id=?"]
  | .tsyncSql =>
      ["INSERT OR ", "REPLACE INTO ", "timesync_status(", "id,mode,", "grandmaster,", "offset_ns,",
        "quality) ", "VALUES('main',", "?,?,0,0)"]
  | .processUpload =>
      ["INSERT OR ", "REPLACE INTO ", "firmware(file,", "version,size,", "crc32,kind,", "uploaded_at) ",
        "VALUES(?,?,?,", "?,?,?)"]
  | .saveBroker =>
      ["INSERT OR ", "REPLACE INTO ", "settings(key,", "value) VALUES(", "'broker',?)"]
  | .saveLlmUrl =>
      ["INSERT OR ", "REPLACE INTO ", "settings(key,", "value) VALUES(", "'llm_url',?)"]
  | .parseAck =>
      ["UPDATE ", "devices SET ", "status=?,", "last_seen=? ", "WHERE id=?"]
  | .parseStatus =>
      ["INSERT OR ", "REPLACE INTO ", "devices(id,", "name,ip,mac,", "kind,firmware,", "status,",
        "last_seen) ", "SELECT id,", "name,ip,mac,", "kind,?,0,? ", "FROM devices ", "WHERE id=? ",
        "UNION ALL ", "SELECT ?,?,?,", "?,?,?,0,?"]
  | .parseDiscover =>
      ["INSERT OR ", "REPLACE INTO ", "devices(id,", "name,ip,mac,", "kind,firmware,", "status,",
        "last_seen) ", "VALUES(?,?,?,", "?,?,?,0,?)"]
  | .parseLwt =>
      ["UPDATE ", "devices SET ", "status=1 ", "WHERE id=?"]
  | .parsePtp =>
      ["INSERT INTO ", "timesync_reports(", "device_id,ts,", "offset_ns,", "jitter_ns,", "packet_count,",
        "packet_loss,", "status) ", "VALUES(?,?,?,", "?,?,?,?)"]
  | .parseFx =>
      ["INSERT INTO ", "fx_data(ts,", "src,data_id,", "value,text) ", "VALUES(?,?,?,", "?,?)"]
  | .parseSonar =>
      ["INSERT INTO ", "sonar_sweeps(", "device_id,ts,", "sweep_id,", "sweep) VALUES(", "?,?,?,?)"]
  | .parseRecordings =>
      ["INSERT OR ", "REPLACE INTO ", "recordings(", "device_id,", "path,", "recorded_at,", "detections) ",
        "VALUES(?,?,?,", "?)"]

def FlowNode.sql (n : FlowNode) : CStr := n.words.flatMap String.toList

/-- How many parameters it passes. -/
def FlowNode.arity : FlowNode → Nat
  | .writeGcl | .streamMembers | .saveBroker | .saveLlmUrl | .parseLwt => 1
  | .tsyncSql => 2
  | .vlanSql | .parseAck => 3
  | .saveVersion | .tasSql | .preemptionSql | .streamSql | .parseSonar | .parseRecordings => 4
  | .parseFx => 5
  | .buildAddSql | .qosSql | .processUpload => 6
  | .parseDiscover | .parsePtp => 7
  | .parseStatus => 10

def allNodes : List FlowNode :=
  [.buildAddSql, .saveVersion, .qosSql, .vlanSql, .tasSql, .writeGcl, .preemptionSql, .streamSql,
    .streamMembers, .tsyncSql, .processUpload, .saveBroker, .saveLlmUrl, .parseAck, .parseStatus,
    .parseDiscover, .parseLwt, .parsePtp, .parseFx, .parseSonar, .parseRecordings]

/-- The text up to the first mark. -/
def FlowNode.first (n : FlowNode) : CStr := n.sql.takeWhile (· ≠ '?')

/-- The pieces behind so many marks; the last one is all that is left. -/
def piecesOf : Nat → CStr → List CStr
  | 0, _ => []
  | 1, s => [s]
  | k + 2, s => s.takeWhile (· ≠ '?') :: piecesOf (k + 1) ((s.dropWhile (· ≠ '?')).drop 1)

def FlowNode.pieces (n : FlowNode) : List CStr :=
  piecesOf n.arity ((n.sql.dropWhile (· ≠ '?')).drop 1)

/-- The statement with the parameters at the marks, in order. -/
def FlowNode.meaning (n : FlowNode) (params : List SqlParam) : List Token :=
  tokens .outside n.first ++ NodeRed.meaning params n.pieces

/-- Every statement has a mark for each of its parameters. -/
theorem allNodes_pieces : ∀ n ∈ allNodes, n.sql = n.first ++ template n.pieces ∧ n.pieces.length = n.arity ∧
    Pieces n.pieces ∧ State.after .outside n.first = .outside ∧ '?' ∉ n.first := by
  decide +kernel

theorem mem_allNodes (n : FlowNode) : n ∈ allNodes := by
  cases n <;> decide

/-- What a node sends to the database is read as its statement with the
parameters as values, whatever stands in them, unless one that is not the last
has a question mark in it; then it never is. -/
theorem statement_read_iff (n : FlowNode) (params : List.Vector SqlParam n.arity) :
    tokens .outside (embedParams n.sql params.toList) = n.meaning params.toList ↔
      ∀ v ∈ params.toList.dropLast, '?' ∉ v.embed := by
  obtain ⟨hsql, hcount, hpieces, hclosed, hfirst⟩ := allNodes_pieces n (mem_allNodes n)
  have hlen : params.toList.length = n.pieces.length := params.toList_length.trans hcount.symm
  rw [hsql, embedParams_append hfirst, tokens_append hclosed, FlowNode.meaning, List.append_cancel_left_eq]
  constructor
  · intro hread v hv hmark
    exact embedParams_misread hpieces hlen ⟨v, hv, hmark⟩ hread
  · exact embedParams_read hpieces hlen

/-- The form that adds a device, as far as the node reads it. -/
structure AddForm where
  id : CStr
  name : CStr
  ip : CStr
  domain : CStr
  usb : CStr

/-- `msg.params` in `build add SQL`; the fourth parameter is the MAC address. -/
def AddForm.params (f : AddForm) : List.Vector SqlParam FlowNode.buildAddSql.arity :=
  ⟨[.string f.id, .string f.name, .string f.ip, .string [],
    .string (if f.domain = [] then "default".toList else f.domain), .string f.usb], rfl⟩

/-- Text outside literals. -/
def chars (s : String) : List Token := s.toList.map .char

/-- `first` ends with `VALUES(` and the columns are ten, of which two are constants
and one is the time, but the parameters are six: the domain stands where the
firmware belongs, the USB id where the domain does, and the place of the USB id is
still a mark. -/
theorem addForm_meaning (f : AddForm) :
    FlowNode.buildAddSql.meaning f.params.toList =
      tokens .outside FlowNode.buildAddSql.first ++
        [[Token.text f.id], chars ",", [Token.text f.name], chars ",", [Token.text f.ip], chars ",", [Token.text []],
          chars ",0,", [Token.text (if f.domain = [] then "default".toList else f.domain)], chars ",0,strftime(",
          [Token.text "%s".toList], chars ",", [Token.text "now".toList], chars "),", [Token.text f.usb],
          chars ",?)"].flatten := by
  have hpieces : FlowNode.buildAddSql.pieces =
      [",".toList, ",".toList, ",".toList, ",0,".toList, ",0,strftime('%s','now'),".toList, ",?)".toList] := by
    decide +kernel
  rw [FlowNode.meaning, hpieces]
  exact congrArg (tokens .outside FlowNode.buildAddSql.first ++ ·) rfl

end Htsn.NodeRed

import WirelessTsn.Lib.Appending
import WirelessTsn.Lib.JsonText

/-!
The poller of the OPC UA nodes (`rpi-tsn/tsn_opcua_link.c`). `emit_value` puts
each member together in `field`, of 256 bytes, before `read_all` appends it to
`json`, so an array that needs more room than that ends without its bracket.

The server's answer to a read is given for each node id.
-/

namespace Htsn.Poller

open CText JsonText

/-- The types that occur in `NODES`. -/
inductive UaType where
  | boolean
  | int16
  | int32
  | int64
  | uint16
  | byte
  deriving DecidableEq

structure NodeDef where
  name : CStr
  id : Nat
  type : UaType
  isArray : Bool := false
  deriving DecidableEq

def sweepNode : NodeDef := ⟨"sonar_sweep".toList, 1, .int16, true⟩

/-- `NODES` behind the first. -/
def scalarNodes : List NodeDef :=
  [{ name := "sonar_sweep_id".toList, id := 2, type := .int32 },
    { name := "servo_angle".toList, id := 3, type := .int16 },
    { name := "relay_on".toList, id := 4, type := .boolean },
    { name := "buzzer_hz".toList, id := 5, type := .uint16 },
    { name := "buzzer_ms".toList, id := 6, type := .uint16 },
    { name := "btn1".toList, id := 7, type := .boolean },
    { name := "btn2".toList, id := 8, type := .boolean },
    { name := "btn3".toList, id := 9, type := .boolean },
    { name := "btn4".toList, id := 10, type := .boolean },
    { name := "ptp_offset_ns".toList, id := 11, type := .int64 },
    { name := "ptp_state".toList, id := 12, type := .byte },
    { name := "ptp_locked".toList, id := 13, type := .boolean },
    { name := "last_seen".toList, id := 14, type := .int64 },
    { name := "tsn_app_vlan".toList, id := 31, type := .int16 },
    { name := "tsn_app_prio".toList, id := 32, type := .byte },
    { name := "tsn_app_preempt".toList, id := 33, type := .byte },
    { name := "tsn_app_timesync".toList, id := 34, type := .byte },
    { name := "tsn_app_strole".toList, id := 35, type := .byte },
    { name := "tsn_app_stvlan".toList, id := 36, type := .int16 },
    { name := "tsn_app_tascyc".toList, id := 37, type := .int64 },
    { name := "tsn_features".toList, id := 38, type := .int32 }]

/-- `NODES` -/
def nodes : List NodeDef := sweepNode :: scalarNodes

/-- A `UA_Variant`: a scalar, as the bytes its pointer leads to, or an array;
`none` where the pointer is NULL. -/
inductive Variant where
  | none
  | scalar (bits : BitVec 64)
  | array (a : List (BitVec 16))

/-- `arrayLength` elements of `data`, taken for `UA_Int16`. -/
def Variant.elements : Variant → List (BitVec 16)
  | .array a => a
  | _ => []

/-- What is printed of a scalar of a type. -/
def scalarText (type : UaType) (bits : BitVec 64) : CStr :=
  match type with
  | .boolean => if bits.setWidth 8 ≠ 0 then "true".toList else "false".toList
  | .int16 => showInt (bits.setWidth 16).toInt
  | .int32 => showInt (bits.setWidth 32).toInt
  | .int64 => showInt bits.toInt
  | .uint16 => showInt (bits.setWidth 16).toNat
  | .byte => showInt (bits.setWidth 8).toNat

/-- `for (i = 0; i < n && off + 1 < cap; i++) off += snprintf(..);` -/
def emitElements (cap : BitVec 64) (b : Writer 64) (a : List (BitVec 16)) : Writer 64 :=
  a.zipIdx.foldl (fun b e => if b.pos + 1 < cap then
    b.append cap ((if e.2 = 0 then [] else [',']) ++ showInt e.1.toInt) else b) b

def emitValue (nd : NodeDef) (v : Variant) (cap : BitVec 64) : Writer 64 :=
  if nd.isArray then
    let opened := Writer.fresh.append cap ('"' :: (nd.name ++ "\":[".toList))
    (emitElements cap opened v.elements).append cap [']']
  else
    match v with
    | .scalar bits => Writer.fresh.append cap (memberText nd.name (scalarText nd.type bits))
    | _ => Writer.fresh.append cap (memberText nd.name "null".toList)

/-- `field` for a node; a read that did not succeed has no value. -/
def fieldBuf (read : Nat → Option Variant) (nd : NodeDef) : Writer 64 :=
  match read nd.id with
  | some v => emitValue nd v 256
  | .none => Writer.fresh.append 256 (memberText nd.name "null".toList)

def fieldText (read : Nat → Option Variant) (nd : NodeDef) : CStr := (fieldBuf read nd).mem.str 256

def jsonHead (ts : Int64) : CStr :=
  '\x7b' :: ("\"ok\":true,\"ts\":".toList ++ (showInt ts.toInt ++ [',']))

/-- `json` and `okc`; `ts` is what `time` returns. -/
def readAll (read : Nat → Option Variant) (ts : Int64) (cap : BitVec 64) : Writer 64 × Nat :=
  let opened := Writer.fresh.append cap (jsonHead ts)
  let filled := nodes.zipIdx.foldl (fun b e =>
    b.append cap ((if e.2 = 0 then [] else [',']) ++ fieldText read e.1)) opened
  (filled.append cap "\x7d\n".toList, nodes.countP fun nd => (read nd.id).isSome)

/-- What `main` writes to its file. -/
def jsonText (read : Nat → Option Variant) (ts : Int64) : CStr :=
  (readAll read ts 8192).1.mem.str 8192

/-- The file is an object with exactly the sweep, nothing is written outside the
buffers and no position is behind its buffer. -/
structure PollComplete (read : Nat → Option Variant) (ts : Int64) (sweep : List (BitVec 16)) :
    Prop where
  inside : (readAll read ts 8192).1.mem.Within 8192
  starts : ∀ p ∈ (readAll read ts 8192).1.starts, p ≤ 8192
  fields : ∀ nd ∈ nodes, ∀ p ∈ (fieldBuf read nd).starts, p ≤ 256
  decodes : ∃ v, Denotes v (jsonText read ts) ∧
    v.get "sonar_sweep".toList = some (.arr (sweep.map fun x => ofInt x.toInt))

/-- The widths of the elements, each with a comma. -/
def sweepWidth (sweep : List (BitVec 16)) : Nat :=
  (sweep.map fun x => (showInt x.toInt).length + 1).sum

/-! ### The members of scalars -/

/-- A value that is printed of a scalar. -/
def scalarValue (type : UaType) (bits : BitVec 64) : JVal :=
  match type with
  | .boolean => .bool (decide (bits.setWidth 8 ≠ 0))
  | .int16 => ofInt (bits.setWidth 16).toInt
  | .int32 => ofInt (bits.setWidth 32).toInt
  | .int64 => ofInt bits.toInt
  | .uint16 => ofInt (bits.setWidth 16).toNat
  | .byte => ofInt (bits.setWidth 8).toNat

theorem reads_scalarText (type : UaType) (bits : BitVec 64) :
    Reads (.value (scalarValue type bits)) (scalarText type bits) := by
  cases type with
  | boolean =>
      have hbool := Reads.bool (decide (bits.setWidth 8 ≠ 0))
      simpa only [scalarValue, scalarText, decide_eq_true_eq] using hbool
  | int16 => exact reads_int _
  | int32 => exact reads_int _
  | int64 => exact reads_int _
  | uint16 => exact reads_int _
  | byte => exact reads_int _

theorem showInt_bitVec_length {w : Nat} (hw : w ≤ 64) (x : BitVec w) :
    (showInt x.toInt).length ≤ 20 ∧ (showInt x.toNat).length ≤ 21 := by
  have hlo := BitVec.le_two_mul_toInt (x := x)
  have hhi := BitVec.two_mul_toInt_lt (x := x)
  have hnat := x.isLt
  have hpow : 2 ^ w ≤ 2 ^ 64 := Nat.pow_le_pow_right (by decide) hw
  constructor
  · have hint : (2 : Int) ^ w ≤ 2 ^ 64 := by exact_mod_cast hpow
    exact showInt_length_le (by decide) (by omega)
  · exact showInt_length_le (by decide) (by omega)

theorem scalarText_length (type : UaType) (bits : BitVec 64) : (scalarText type bits).length ≤ 21 := by
  cases type with
  | boolean =>
      unfold scalarText
      dsimp only
      split <;> decide
  | int16 => exact (showInt_bitVec_length (by decide) _).1.trans (by decide)
  | int32 => exact (showInt_bitVec_length (by decide) _).1.trans (by decide)
  | int64 => exact (showInt_bitVec_length (by decide) _).1.trans (by decide)
  | uint16 => exact (showInt_bitVec_length (by decide) _).2
  | byte => exact (showInt_bitVec_length (by decide) _).2

/-- What is printed of a node that is no array, and the value that this is. -/
def memberValue (read : Nat → Option Variant) (nd : NodeDef) : JVal :=
  match read nd.id with
  | some (.scalar bits) => scalarValue nd.type bits
  | _ => .null

theorem scalarNodes_names :
    ∀ nd ∈ scalarNodes, nd.isArray = false ∧ (∀ c ∈ nd.name, IsStrChar c) ∧ nd.name.length ≤ 16 := by
  decide

/-- One call that has room for its text. -/
theorem fieldText_single {text : CStr} (hlen : text.length ≤ 255) (hnul : NulFree text) :
    ((Writer.fresh : Writer 64).append 256 text).mem.str 256 = text := by
  have hflat : [text].flatten = text := List.append_nil text
  have hstr := @Writer.str_appendAll 64 256 [text] (List.cons_ne_nil _ _) (by rwa [hflat]) (by decide)
    (by rw [hflat]; omega)
  rw [hflat] at hstr
  exact hstr.trans (List.take_of_length_le hlen)

theorem readsMember_scalar (read : Nat → Option Variant) {nd : NodeDef} (hnd : nd ∈ scalarNodes) :
    ReadsMember (nd.name, memberValue read nd) (fieldText read nd) ∧
      (fieldBuf read nd).starts = [0] := by
  obtain ⟨harray, hclean, hname⟩ := scalarNodes_names nd hnd
  suffices hone : ∃ text, Reads (.value (memberValue read nd)) text ∧ text.length ≤ 21 ∧
      fieldBuf read nd = Writer.fresh.append 256 (memberText nd.name text) by
    obtain ⟨text, hreads, hlen, hbuf⟩ := hone
    have hmember := readsMember hclean hreads
    refine ⟨?_, by rw [hbuf]; rfl⟩
    rw [fieldText, hbuf, fieldText_single]
    · exact hmember
    · simp only [memberText, List.length_cons, List.length_append]
      omega
    · exact nulFree_reads hmember.reads
  unfold fieldBuf memberValue
  cases hread : read nd.id with
  | none => exact ⟨_, .null, by decide, rfl⟩
  | some v =>
      cases v with
      | scalar bits =>
          refine ⟨_, reads_scalarText nd.type bits, scalarText_length nd.type bits, ?_⟩
          simp only [emitValue, harray, Bool.false_eq_true, if_false]
      | none =>
          refine ⟨_, .null, by decide, ?_⟩
          simp only [emitValue, harray, Bool.false_eq_true, if_false]
      | array a =>
          refine ⟨_, .null, by decide, ?_⟩
          simp only [emitValue, harray, Bool.false_eq_true, if_false]

/-! ### The member of the sweep -/

def sweepTexts (sweep : List (BitVec 16)) : List CStr := sweep.map fun x => showInt x.toInt

def sweepHead : CStr := "\"sonar_sweep\":[".toList

/-- What is printed ahead of the bracket that closes the array. -/
theorem emitElements_eq (sweep : List (BitVec 16)) :
    ∃ done, done <+: commaPieces (sweepTexts sweep) ∧
      emitElements 256 (Writer.fresh.append 256 sweepHead) sweep =
        Writer.fresh.appendAll 256 (sweepHead :: done) ∧
      (sweepHead :: done).flatten.length < 263 ∧
      (done = commaPieces (sweepTexts sweep) ∨ 255 ≤ (sweepHead :: done).flatten.length) := by
  have hshort : ∀ u ∈ commaPieces (sweepTexts sweep), u.length ≤ 7 := by
    have helement : ∀ x : BitVec 16, (showInt x.toInt).length ≤ 6 := by
      intro x
      have hlo := BitVec.le_two_mul_toInt (x := x)
      have hhi := BitVec.two_mul_toInt_lt (x := x)
      exact showInt_length_le (by decide) (by omega)
    have htexts : ∀ t ∈ sweepTexts sweep, t.length ≤ 6 := by
      intro t ht
      obtain ⟨x, _, rfl⟩ := List.mem_map.mp ht
      exact helement x
    exact forall_commaPieces (P := fun u => u.length ≤ 7) (fun t ht => (htexts t ht).trans (by decide))
      fun t ht _ => Nat.succ_le_succ (htexts t ht)
  have hloop := foldl_commaPieces (fun (b : Writer 64) t => if b.pos + 1 < 256 then b.append 256 t else b)
    (fun x : BitVec 16 => showInt x.toInt) sweep (Writer.fresh.append 256 sweepHead)
  have hguarded := @Writer.appendGuarded_eq 64 256 [sweepHead] 7 (by decide)
    (commaPieces (sweepTexts sweep)) hshort (by decide)
  obtain ⟨done, hdone, heq, hbound, hend⟩ := hguarded
  refine ⟨done, hdone, hloop.trans heq, hbound, hend.imp id fun hfull => ?_⟩
  exact Nat.le_of_succ_le_succ hfull

theorem sweepTexts_reads (sweep : List (BitVec 16)) :
    List.Forall₂ (fun v t => Reads (.value v) t) (sweep.map fun x => ofInt x.toInt)
      (sweepTexts sweep) := by
  rw [sweepTexts, List.forall₂_map_left_iff, List.forall₂_map_right_iff, List.forall₂_same]
  exact fun x _ => reads_int x.toInt

theorem sweepTexts_quiet (sweep : List (BitVec 16)) :
    ∀ c ∈ commaSep (sweepTexts sweep), IsQuiet c := by
  apply quiet_commaSep
  intro t ht
  obtain ⟨x, _, rfl⟩ := List.mem_map.mp ht
  exact quiet_showInt x.toInt

theorem sweepWidth_eq (sweep : List (BitVec 16)) :
    (commaSep (sweepTexts sweep)).length ≤ 239 ↔ sweepWidth sweep ≤ 240 := by
  rcases eq_or_ne sweep [] with rfl | hne
  · decide
  · have hlength := @commaSep_length (sweepTexts sweep) (by simpa [sweepTexts] using hne)
    have hsum : ((sweepTexts sweep).map fun t => t.length + 1).sum = sweepWidth sweep := by
      rw [sweepTexts, List.map_map]
      rfl
    omega

section

variable {read : Nat → Option Variant} {sweep : List (BitVec 16)}

/-- The text of the member, cut to what fits `field`. -/
theorem fieldText_sweep (hread : read 1 = some (.array sweep)) :
    ∃ done, done <+: commaPieces (sweepTexts sweep) ∧
      fieldText read sweepNode = (sweepHead ++ (done.flatten ++ [']'])).take 255 ∧
      (fieldBuf read sweepNode) = Writer.fresh.appendAll 256 (sweepHead :: done ++ [[']']]) ∧
      (done = commaPieces (sweepTexts sweep) ∨ 255 ≤ sweepHead.length + done.flatten.length) := by
  obtain ⟨done, hdone, heq, hbound, hend⟩ := emitElements_eq sweep
  have hbuf : fieldBuf read sweepNode = Writer.fresh.appendAll 256 (sweepHead :: done ++ [[']']]) := by
    rw [Writer.appendAll_concat, ← heq]
    unfold fieldBuf
    rw [show sweepNode.id = 1 from rfl, hread]
    rfl
  have hflat : (sweepHead :: done ++ [[']']]).flatten = sweepHead ++ (done.flatten ++ [']']) := by
    rw [List.flatten_append, List.flatten_cons, List.flatten_singleton, List.append_assoc]
  have hnul : NulFree (sweepHead ++ (done.flatten ++ [']'])) := by
    have harr := nulFree_reads (reads_arr (sweepTexts_reads sweep))
    refine NulFree.append (by decide) (NulFree.append (fun hmem => harr ?_) (by decide))
    exact List.mem_cons_of_mem _ (List.mem_append_left _ (hdone.flatten.subset hmem))
  rw [List.flatten_cons, List.length_append] at hbound hend
  have hstr := @Writer.str_appendAll 64 256 (sweepHead :: done ++ [[']']]) (by simp)
    (by rwa [hflat]) (by decide) (by
      rw [hflat, List.length_append, List.length_append, List.length_singleton]
      omega)
  rw [hflat, ← hbuf] at hstr
  exact ⟨done, hdone, hstr, hbuf, hend⟩

theorem fieldText_sweep_of_fits (hread : read 1 = some (.array sweep))
    (hfits : sweepWidth sweep ≤ 240) :
    ReadsMember ("sonar_sweep".toList, .arr (sweep.map fun x => ofInt x.toInt))
      (fieldText read sweepNode) ∧ ∀ p ∈ (fieldBuf read sweepNode).starts, p ≤ 256 := by
  have hwidth := (sweepWidth_eq sweep).mpr hfits
  have hhead : sweepHead.length = 15 := by decide
  obtain ⟨done, hdone, htext, hbuf, hend⟩ := fieldText_sweep hread
  have hshort : done.flatten.length ≤ 239 := hdone.flatten.length_le.trans hwidth
  have hall : done = commaPieces (sweepTexts sweep) := hend.resolve_right (by omega)
  rw [List.take_of_length_le (by
    rw [List.length_append, List.length_append, List.length_singleton]
    omega), hall] at htext
  constructor
  · rw [htext]
    have hmember := readsMember (by decide : ∀ c ∈ "sonar_sweep".toList, IsStrChar c)
      (reads_arr (sweepTexts_reads sweep))
    have hsame : memberText "sonar_sweep".toList ('[' :: (commaSep (sweepTexts sweep) ++ [']'])) =
        sweepHead ++ (commaSep (sweepTexts sweep) ++ [']']) := by
      have hopen : sweepHead = '"' :: ("sonar_sweep".toList ++ ['"', ':', '[']) := rfl
      rw [hopen, memberText, List.cons_append, List.append_assoc]
      rfl
    rwa [hsame] at hmember
  · rw [hbuf]
    have hinside := @Writer.startsInside_appendAll 64 256 (sweepHead :: done ++ [[']']]) (by
      rw [List.dropLast_concat, List.flatten_cons, List.length_append]
      show _ < 256
      omega)
    exact fun p hp => BitVec.le_of_lt (hinside p hp)

/-- A wider sweep leaves its bracket open. -/
theorem fieldText_sweep_of_wide (hread : read 1 = some (.array sweep))
    (hwide : 240 < sweepWidth sweep) :
    ∃ q, (∀ c ∈ q, IsQuiet c) ∧ fieldText read sweepNode = sweepHead ++ q := by
  have hwidth := (sweepWidth_eq sweep).not.mpr (by omega)
  have hhead : sweepHead.length = 15 := by decide
  obtain ⟨done, hdone, htext, -, hend⟩ := fieldText_sweep hread
  have hlong : 255 ≤ sweepHead.length + done.flatten.length := by
    rcases hend with rfl | hfull
    · show 255 ≤ _ + (commaSep (sweepTexts sweep)).length
      omega
    · exact hfull
  refine ⟨done.flatten.take 240, fun c hc => ?_, ?_⟩
  · exact sweepTexts_quiet sweep c (hdone.flatten.subset (List.mem_of_mem_take hc))
  · rw [htext, ← List.append_assoc, List.take_append_of_le_length (by
      rw [List.length_append]
      omega), List.take_append, List.take_of_length_le (by omega), hhead]

/-! ### The object -/

def jsonCalls (read : Nat → Option Variant) (ts : Int64) : List CStr :=
  jsonHead ts :: commaPieces (nodes.map (fieldText read)) ++ ["\x7d\n".toList]

theorem readAll_eq (ts : Int64) :
    (readAll read ts 8192).1 = Writer.fresh.appendAll 8192 (jsonCalls read ts) := by
  have hloop := foldl_commaPieces (Writer.append (8192 : BitVec 64)) (fieldText read) nodes
    (Writer.fresh.append 8192 (jsonHead ts))
  rw [jsonCalls, Writer.appendAll_concat, Writer.appendAll_cons, Writer.appendAll, ← hloop]
  rfl

theorem jsonCalls_flatten (ts : Int64) : (jsonCalls read ts).flatten =
    jsonHead ts ++ (commaSep (nodes.map (fieldText read)) ++ "\x7d\n".toList) := by
  rw [jsonCalls, List.flatten_append, List.flatten_cons, List.flatten_singleton, List.append_assoc]
  rfl

/-- No field is longer than its buffer, so all of them fit `json`. -/
theorem jsonCalls_length (ts : Int64) : (jsonCalls read ts).flatten.length ≤ 5800 := by
  have hts : (showInt ts.toInt).length ≤ 20 := by
    have hlo := ts.le_toInt
    have hhi := ts.toInt_lt
    exact showInt_length_le (by decide) (by omega)
  have hfields := @commaSep_length_le (nodes.map (fieldText read)) 256 (by
    intro t ht
    obtain ⟨nd, _, rfl⟩ := List.mem_map.mp ht
    exact Mem.str_length_le _ 256)
  have hcount : (nodes.map (fieldText read)).length = 22 := List.length_map _
  have hhead : (jsonHead ts).length = 17 + (showInt ts.toInt).length := by
    simp only [jsonHead, String.reduceToList, List.length_cons, List.length_append, List.length_nil]
    omega
  have hclose : "\x7d\n".toList.length = 2 := rfl
  rw [jsonCalls_flatten, List.length_append, List.length_append]
  omega

theorem jsonText_eq (ts : Int64) : jsonText read ts = (jsonCalls read ts).flatten := by
  have hlength := @jsonCalls_length read ts
  have hnul : NulFree (jsonCalls read ts).flatten := by
    have hhead : NulFree (jsonHead ts) := by
      have hnum : NulFree (showInt ts.toInt) := nulFree_reads (reads_int ts.toInt)
      have hopen : NulFree ('\x7b' :: "\"ok\":true,\"ts\":".toList) := by decide
      exact hopen.append (hnum.append (by decide))
    rw [jsonCalls_flatten]
    refine hhead.append (NulFree.append (nulFree_commaSep fun t ht => ?_) (by decide))
    obtain ⟨nd, _, rfl⟩ := List.mem_map.mp ht
    exact Mem.nul_notMem_str _ 256
  have hstr := @Writer.str_appendAll 64 8192 (jsonCalls read ts) (by simp [jsonCalls]) hnul (by decide)
    (by omega)
  rw [jsonText, readAll_eq]
  exact hstr.trans (List.take_of_length_le (hlength.trans (by decide)))

theorem jsonFields (read : Nat → Option Variant) :
    nodes.map (fieldText read) = fieldText read sweepNode :: scalarNodes.map (fieldText read) := rfl

/-- The object that is written when the sweep fits. -/
def pollValue (read : Nat → Option Variant) (ts : Int64) (sweep : List (BitVec 16)) : JVal :=
  .obj (("ok".toList, .bool true) :: ("ts".toList, ofInt ts.toInt) ::
    ("sonar_sweep".toList, .arr (sweep.map fun x => ofInt x.toInt)) ::
      scalarNodes.map fun nd => (nd.name, memberValue read nd))

theorem pollValue_get (ts : Int64) : (pollValue read ts sweep).get "sonar_sweep".toList =
    some (.arr (sweep.map fun x => ofInt x.toInt)) := rfl

theorem reads_jsonText (hread : read 1 = some (.array sweep)) (hfits : sweepWidth sweep ≤ 240)
    (ts : Int64) : Denotes (pollValue read ts sweep) (jsonText read ts) := by
  have hok : ReadsMember ("ok".toList, .bool true) (memberText "ok".toList "true".toList) :=
    readsMember (by decide) (Reads.bool true)
  have hts := readsMember (by decide : ∀ c ∈ "ts".toList, IsStrChar c) (reads_int ts.toInt)
  have hscalars : List.Forall₂ ReadsMember (scalarNodes.map fun nd => (nd.name, memberValue read nd))
      (scalarNodes.map (fieldText read)) := by
    rw [List.forall₂_map_left_iff, List.forall₂_map_right_iff, List.forall₂_same]
    exact fun nd hnd => (readsMember_scalar read hnd).1
  have hobj := reads_obj (.cons hok (.cons hts
    (.cons (fieldText_sweep_of_fits hread hfits).1 hscalars)))
  rw [commaSep_cons_cons, commaSep_cons_cons, ← jsonFields] at hobj
  refine ⟨.none, ⟨['\n'], by decide⟩, _, hobj, ?_⟩
  have hhead : jsonHead ts =
      '\x7b' :: ("\"ok\":true,\"ts\":".toList ++ (showInt ts.toInt ++ [','])) := rfl
  rw [jsonText_eq, jsonCalls_flatten, hhead]
  simp only [memberText, Json.Ws.none, String.reduceToList, List.append_assoc,
    List.cons_append, List.nil_append]

theorem pollComplete_of_fits (hread : read 1 = some (.array sweep)) (hfits : sweepWidth sweep ≤ 240)
    (ts : Int64) : PollComplete read ts sweep := by
  have hlast : (jsonCalls read ts).dropLast.flatten.length < (8192 : BitVec 64).toNat := by
    have hlength := @jsonCalls_length read ts
    have hshort := (List.dropLast_sublist (jsonCalls read ts)).flatten.length_le
    exact Nat.lt_of_le_of_lt (hshort.trans hlength) (by decide)
  constructor
  · rw [readAll_eq]
    exact Writer.within_appendAll hlast
  · rw [readAll_eq]
    exact fun p hp => BitVec.le_of_lt (Writer.startsInside_appendAll hlast p hp)
  · intro nd hnd
    rcases List.mem_cons.mp hnd with rfl | hnd
    · exact (fieldText_sweep_of_fits hread hfits).2
    · rw [(readsMember_scalar read hnd).2]
      exact List.forall_mem_singleton.mpr (by decide)
  · exact ⟨_, reads_jsonText hread hfits ts, pollValue_get ts⟩

theorem not_pollComplete_of_wide (hread : read 1 = some (.array sweep))
    (hwide : 240 < sweepWidth sweep) (ts : Int64) : ¬ PollComplete read ts sweep := by
  rintro ⟨-, -, -, v, hdenotes, -⟩
  obtain ⟨q, hquiet, hfield⟩ := fieldText_sweep_of_wide hread hwide
  have hscalars : Balanced (',' :: commaSep (scalarNodes.map (fieldText read))) := by
    have hcomma : Balanced [','] := balanced_neutral (by decide)
    refine hcomma.append (balanced_commaSep fun t ht => ?_)
    obtain ⟨nd, hnd, rfl⟩ := List.mem_map.mp ht
    exact balanced_reads (readsMember_scalar read hnd).1.reads
  have hhead : brackets (.out, 0) (jsonHead ts) = (.out, 1) := by
    have hopen : brackets (.out, 0) ('\x7b' :: "\"ok\":true,\"ts\":".toList) = (.out, 1) := by decide
    have htext : jsonHead ts = ('\x7b' :: "\"ok\":true,\"ts\":".toList) ++
        (showInt ts.toInt ++ [',']) := rfl
    rw [htext, brackets_append, hopen, brackets_append,
      brackets_quiet (quiet_showInt ts.toInt) (by decide)]
    rfl
  have hsweep : brackets (.out, 1) sweepHead = (.out, 2) := by decide
  have htext : jsonText read ts = jsonHead ts ++ (sweepHead ++ (q ++
      (',' :: commaSep (scalarNodes.map (fieldText read)) ++ "\x7d\n".toList))) := by
    have hne : scalarNodes.map (fieldText read) ≠ [] := List.cons_ne_nil _ _
    rw [jsonText_eq, jsonCalls_flatten, jsonFields, hfield, commaSep_cons hne]
    simp only [List.append_assoc, List.cons_append]
  have hopen : 0 < (brackets (.out, 0) (jsonText read ts)).2 := by
    rw [htext, brackets_append, hhead, brackets_append, hsweep, brackets_append,
      brackets_quiet hquiet (by decide), brackets_append, hscalars.back]
    decide
  exact not_denotes_of_open hopen v hdenotes

theorem pollComplete_iff (hread : read 1 = some (.array sweep)) (ts : Int64) :
    PollComplete read ts sweep ↔ sweepWidth sweep ≤ 240 := by
  constructor
  · intro hcomplete
    by_contra hwide
    exact not_pollComplete_of_wide hread (by omega) ts hcomplete
  · exact fun hfits => pollComplete_of_fits hread hfits ts

end

/-- A server on which the sweep has readings of one value and every other node
is zero. -/
def steadyServer (n : Nat) (cm : BitVec 16) : Nat → Option Variant
  | 1 => some (.array (List.replicate n cm))
  | _ => some (.scalar 0)

theorem shortPoll_complete : PollComplete (steadyServer 60 57) 1700000000 (List.replicate 60 57) ↔
    sweepWidth (List.replicate 60 57) ≤ 240 :=
  pollComplete_iff rfl 1700000000

theorem widePoll_incomplete :
    ¬ PollComplete (steadyServer 180 (-1)) 1700000000 (List.replicate 180 (-1)) :=
  not_pollComplete_of_wide rfl (by
    rw [sweepWidth, List.map_replicate, List.sum_replicate]
    decide) 1700000000

end Htsn.Poller

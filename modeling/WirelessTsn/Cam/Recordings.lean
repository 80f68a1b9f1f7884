import WirelessTsn.Lib.Appending
import WirelessTsn.Lib.JsonText

/-!
The list of recordings that `record_task` of the camera node
(`esp32-cam/main/camera_app.c`) publishes behind a clip. The text is put
together in `lib`, of 2048 bytes, and the position `n` is never compared with
that size.
-/

namespace Htsn.Cam

open CText JsonText

/-- The name of a file on the card. A FAT name has no quote, no backslash and
no control character, and `d_name` holds 255 bytes. -/
structure FatName where
  chars : CStr
  clean : ∀ c ∈ chars, IsStrChar c
  fits : chars.length < 256

/-- `g_device_id`, in characters that stand for themselves. -/
structure CamId where
  chars : CStr
  clean : ∀ c ∈ chars, IsStrChar c
  fits : chars.length < 32

/-- `l >= 4 && strcmp(d_name + l - 4, ".jpg") == 0` -/
def isJpg (name : FatName) : Bool :=
  decide (4 ≤ name.chars.length) && name.chars.drop (name.chars.length - 4) == ".jpg".toList

/-- `sizeof(lib)` -/
def libSize : BitVec 32 := 2048

def listHead (id : CamId) : CStr :=
  '\x7b' :: ("\"id\":\"".toList ++ (id.chars ++ "\",\"recordings\":[".toList))

/-- `"/sdcard/%s"`, in its quotes -/
def listEntry (name : FatName) : CStr := '"' :: ("/sdcard/".toList ++ name.chars ++ ['"'])

/-- `lib` with `n`, and `first`. -/
structure ListLoop where
  lib : Writer 32
  first : Bool

def ListLoop.entry (s : ListLoop) (name : FatName) : ListLoop :=
  if isJpg name then
    ⟨s.lib.append libSize ((if s.first then [] else [',']) ++ listEntry name), false⟩
  else s

/-- `lib` when it is published; `dir` has the entries of the card in the order
of `readdir`, and is `none` when `opendir` fails. -/
def recordingsList (id : CamId) (dir : Option (List FatName)) : Writer 32 :=
  let opened : ListLoop := ⟨Writer.fresh.append libSize (listHead id), true⟩
  ((dir.getD []).foldl ListLoop.entry opened).lib.append libSize "]\x7d".toList

/-- The payload on `tsn/cam/recordings`. -/
def recordingsText (id : CamId) (dir : Option (List FatName)) : CStr :=
  (recordingsList id dir).mem.str libSize.toNat

/-- The clips among the entries of the card. -/
def clipNames (dir : Option (List FatName)) : List FatName := (dir.getD []).filter isJpg

/-- The value of an entry of the list. -/
def clipPath (name : FatName) : JVal := .str ("/sdcard/".toList ++ name.chars)

/-- Every call starts inside `lib`, and the payload is an object that lists
the clips from the first on. -/
structure RecordingsListed (id : CamId) (dir : Option (List FatName)) : Prop where
  inside : (recordingsList id dir).StartsInside libSize
  listed : ∃ v names, Denotes v (recordingsText id dir) ∧ names <+: clipNames dir ∧
    v.get "recordings".toList = some (.arr (names.map clipPath))

/-! ### The text -/

/-- What the calls print, one after the other. -/
def listCalls (id : CamId) (names : List FatName) : List CStr :=
  listHead id :: commaPieces (names.map listEntry)

def listText (id : CamId) (names : List FatName) : CStr :=
  (listCalls id names ++ ["]\x7d".toList]).flatten

theorem recordingsList_eq (id : CamId) (dir : Option (List FatName)) :
    recordingsList id dir =
      Writer.fresh.appendAll libSize (listCalls id (clipNames dir) ++ ["]\x7d".toList]) := by
  -- Behind the first clip every call prints a comma.
  have hlater : ∀ (names : List FatName) (b : Writer 32),
      (names.foldl ListLoop.entry ⟨b, false⟩).lib =
        b.appendAll libSize (((names.filter isJpg).map listEntry).map (',' :: ·)) := by
    intro names
    induction names with
    | nil => exact fun b => rfl
    | cons name names ih =>
        intro b
        rw [List.foldl_cons, ListLoop.entry, List.filter_cons]
        split
        · rw [if_neg Bool.false_ne_true, List.singleton_append, ih, List.map_cons, List.map_cons,
            Writer.appendAll_cons]
        · exact ih b
  have hloop : ∀ (names : List FatName) (b : Writer 32),
      (names.foldl ListLoop.entry ⟨b, true⟩).lib =
        b.appendAll libSize (commaPieces ((names.filter isJpg).map listEntry)) := by
    intro names
    induction names with
    | nil => exact fun b => rfl
    | cons name names ih =>
        intro b
        rw [List.foldl_cons, ListLoop.entry, List.filter_cons]
        split
        · rw [if_pos rfl, List.nil_append, hlater, List.map_cons, commaPieces, Writer.appendAll_cons]
        · exact ih b
  rw [Writer.appendAll_concat, recordingsList, hloop]
  rfl

def listValue (id : CamId) (names : List FatName) : JVal :=
  .obj [("id".toList, .str id.chars), ("recordings".toList, .arr (names.map clipPath))]

theorem listValue_get (id : CamId) (names : List FatName) :
    (listValue id names).get "recordings".toList = some (.arr (names.map clipPath)) := rfl

theorem reads_listText (id : CamId) (names : List FatName) :
    Reads (.value (listValue id names)) (listText id names) := by
  have hentries : List.Forall₂ (fun v t => Reads (.value v) t) (names.map clipPath)
      (names.map listEntry) := by
    rw [List.forall₂_map_left_iff, List.forall₂_map_right_iff, List.forall₂_same]
    intro name hname
    refine reads_str fun c hc => ?_
    rcases List.mem_append.mp hc with hc | hc
    · exact (by decide : ∀ c ∈ "/sdcard/".toList, IsStrChar c) c hc
    · exact name.clean c hc
  have hid := readsMember (by decide : ∀ c ∈ "id".toList, IsStrChar c) (reads_str id.clean)
  have hlist := readsMember (by decide : ∀ c ∈ "recordings".toList, IsStrChar c)
    (reads_arr hentries)
  have hobj := reads_obj (.cons hid (.cons hlist .nil))
  have htext : listText id names = '\x7b' :: (commaSep [memberText "id".toList
      ('"' :: (id.chars ++ ['"'])), memberText "recordings".toList
        ('[' :: (commaSep (names.map listEntry) ++ [']']))] ++ ['\x7d']) := by
    rw [commaSep_cons_cons, commaSep_singleton]
    simp only [listText, listCalls, listHead, List.flatten_append, List.flatten_cons,
      List.flatten_nil, commaSep, memberText, String.reduceToList,
      List.append_assoc, List.cons_append, List.nil_append, List.append_nil]
  rwa [htext]

/-! ### Lengths -/

/-- The length of the list, with a comma too many. -/
def clipsLength (names : List FatName) : Nat := (names.map fun n => n.chars.length + 11).sum

theorem listEntry_length (name : FatName) : (listEntry name).length = name.chars.length + 10 := by
  simp only [listEntry, String.reduceToList, List.length_cons, List.length_append, List.length_nil]
  omega

theorem listHead_length (id : CamId) : (listHead id).length = id.chars.length + 23 := by
  simp only [listHead, String.reduceToList, List.length_cons, List.length_append, List.length_nil]
  omega

theorem commaSep_entries_length (name : FatName) (names : List FatName) :
    (commaSep ((name :: names).map listEntry)).length + 1 = clipsLength (name :: names) := by
  rw [commaSep_length (by simp), List.map_map, clipsLength]
  congr 1
  refine List.map_congr_left fun n _ => ?_
  rw [Function.comp_apply, listEntry_length]

/-- What the calls ahead of the closing brackets print. -/
theorem listCalls_length (id : CamId) (names : List FatName) :
    (listCalls id names).flatten.length ≤ 2045 ↔ id.chars.length + clipsLength names ≤ 2023 := by
  rw [listCalls, List.flatten_cons, List.length_append, listHead_length]
  show id.chars.length + 23 + (commaSep (names.map listEntry)).length ≤ 2045 ↔ _
  cases names with
  | nil =>
      have hid := id.fits
      refine iff_of_true ?_ ?_
      · show id.chars.length + 23 + 0 ≤ 2045
        omega
      · show id.chars.length + 0 ≤ 2023
        omega
  | cons name names =>
      have hlength := commaSep_entries_length name names
      omega

theorem listCalls_short (id : CamId) (names : List FatName) :
    ∀ t ∈ listCalls id names, t.length ≤ 266 := by
  have hentry : ∀ name : FatName, (listEntry name).length ≤ 265 := by
    intro name
    have hfits := name.fits
    rw [listEntry_length]
    omega
  intro t ht
  rcases List.mem_cons.mp ht with rfl | ht
  · have hid := id.fits
    rw [listHead_length]
    omega
  · have hnames : ∀ u ∈ names.map listEntry, u.length ≤ 265 := by
      intro u hu
      obtain ⟨name, _, rfl⟩ := List.mem_map.mp hu
      exact hentry name
    exact forall_commaPieces (P := fun u => u.length ≤ 266) (fun u hu => (hnames u hu).trans (by decide))
      (fun u hu _ => Nat.succ_le_succ (hnames u hu)) t ht

/-! ### The payload -/

/-- The published text is the list, cut to what fits `lib`. -/
theorem recordingsText_eq (id : CamId) (dir : Option (List FatName))
    (hbound : (listText id (clipNames dir)).length < 2 ^ 32) :
    recordingsText id dir = (listText id (clipNames dir)).take 2047 := by
  rw [recordingsText, recordingsList_eq]
  exact @Writer.str_appendAll 32 libSize _ (by simp) (nulFree_reads (reads_listText id _))
    (by decide) hbound

theorem recordingsListed_of_fits {id : CamId} {dir : Option (List FatName)}
    (h : id.chars.length + clipsLength (clipNames dir) ≤ 2023) : RecordingsListed id dir := by
  have hcalls := (listCalls_length id (clipNames dir)).mpr h
  have htext : (listText id (clipNames dir)).length =
      (listCalls id (clipNames dir)).flatten.length + 2 := by
    rw [listText, List.flatten_append, List.length_append]
    rfl
  constructor
  · rw [recordingsList_eq]
    apply Writer.startsInside_appendAll
    rw [List.dropLast_concat]
    exact Nat.lt_of_le_of_lt hcalls (by decide)
  · refine ⟨listValue id (clipNames dir), clipNames dir, ?_, List.prefix_rfl, listValue_get id _⟩
    rw [recordingsText_eq id dir (by omega), List.take_of_length_le (by omega)]
    exact denotes_of_reads (reads_listText id (clipNames dir))

/-- A longer list loses its closing brackets, or starts a call outside `lib`. -/
theorem not_recordingsListed_of_long {id : CamId} {dir : Option (List FatName)}
    (h : 2023 < id.chars.length + clipsLength (clipNames dir)) : ¬ RecordingsListed id dir := by
  have hcalls : 2045 < (listCalls id (clipNames dir)).flatten.length := by
    have hfits := (listCalls_length id (clipNames dir)).not.mpr (by omega)
    omega
  intro hlisted
  rcases Nat.lt_or_ge (listCalls id (clipNames dir)).flatten.length 2048 with hin | hout
  · have htext : (listText id (clipNames dir)).length =
        (listCalls id (clipNames dir)).flatten.length + 2 := by
      rw [listText, List.flatten_append, List.length_append]
      rfl
    obtain ⟨v, names, hdenotes, -, -⟩ := hlisted.listed
    rw [recordingsText_eq id dir (by omega)] at hdenotes
    refine not_denotes_of_cut (reads_listText id (clipNames dir)) rfl (List.take_prefix _ _) ?_ ?_ v
      hdenotes
    · rw [Ne, List.take_eq_nil_iff, ← List.length_eq_zero_iff]
      omega
    · rw [Ne, List.take_eq_self_iff]
      omega
  · have hinside := hlisted.inside
    rw [recordingsList_eq] at hinside
    exact @Writer.not_startsInside_of_short 32 libSize _ _ (by decide)
      (listCalls_short id (clipNames dir)) (by decide) hout _ hinside

theorem recordingsListed_iff (id : CamId) (dir : Option (List FatName)) :
    RecordingsListed id dir ↔ id.chars.length + clipsLength (clipNames dir) ≤ 2023 := by
  constructor
  · intro hlisted
    by_contra hlong
    exact not_recordingsListed_of_long (by omega) hlisted
  · exact recordingsListed_of_fits

/-- The name of a clip, of 28 bytes. -/
def someClip : FatName := ⟨"clip_0007_00000123456789.jpg".toList, by decide, by decide⟩

def someCamId : CamId := ⟨"esp32-cam-01".toList, by decide, by decide⟩

theorem manyClips_not_listed :
    ¬ RecordingsListed someCamId (some (List.replicate 52 someClip)) := by
  apply not_recordingsListed_of_long
  decide

end Htsn.Cam

import WirelessTsn.Lib.Fields
import WirelessTsn.Lib.Lines
import WirelessTsn.Lib.Run
import WirelessTsn.Vlan.Manager

/-!
Export and import of the VLAN groups of `vlan_manager.c`. A line holds a
group's name as it is, but the scanset of the import ends a name at the first
comma; the ids are not exported, and the import keys every group by its
number. So an export can be imported unchanged exactly if no name holds a
comma and no number has two names.
-/

namespace Htsn

open CText Keyed Run

/-- `htsn_vlan_group_id` -/
def vlanGroupId (vlanId : Int32) : Str := Buf.copy 256 ("vlan-".toList ++ showInt vlanId.toInt)

theorem vlanGroupId_injective {v w : Int32}
    (h : (vlanGroupId v).chars = (vlanGroupId w).chars) : v = w := by
  have hshort : ∀ v : Int32, ("vlan-".toList ++ showInt v.toInt).length < 256 := by
    intro v
    have hlo := v.le_toInt
    have hhi := v.toInt_lt
    have hnumber : (showInt v.toInt).length ≤ 10 + 1 := showInt_length_le (by omega) (by omega)
    rw [List.length_append]
    exact Nat.lt_of_le_of_lt (Nat.add_le_add_left hnumber _) (by decide)
  rw [vlanGroupId, vlanGroupId, Buf.copy_chars_of_lt (hshort v), Buf.copy_chars_of_lt (hshort w),
    List.append_cancel_left_eq] at h
  have hv := scanInt_showInt v.toInt [] (by simp)
  rw [h, scanInt_showInt w.toInt [] (by simp), Option.some_inj, Prod.mk.injEq] at hv
  exact Int32.toInt_inj.mp hv.1.symm

def exportFields (g : VlanGroup) : List Field :=
  [.lit "VLAN,".toList, .word g.name.chars, .lit [','], .int g.vlanId]

/-- The line of `export_group_cb` without its newline. -/
def exportGroup (g : VlanGroup) : CStr := renderLine (exportFields g)

/-- The export and the file it writes, if that can be opened. -/
def vlanManagerExport (db : Db) (opens : Bool) : HtsnError × Option CStr :=
  if opens then (.ok, some ((dbVlanGroupForEach db).flatMap fun g => exportGroup g ++ ['\n']))
  else (.io, none)

/-- `"VLAN,%255[^,],%d"` -/
def importFormat : List Conv :=
  lineConvs 255 ',' [.lit "VLAN,".toList, .word [], .lit [','], .int 0]

/-- The loop over the lines in `htsn_vlan_manager_import`. -/
def importLine (db : Db) (line : CStr) : Db :=
  let args := sscanf importFormat line
  if args.length = 2 then
    (vlanManagerCreateGroup db
      ⟨vlanGroupId (argInt args 1), Buf.copy 256 (argText args 0), argInt args 1⟩).2
  else db

def vlanManagerImport (db : Db) (file : Option CStr) : HtsnError × Db :=
  match file with
  | none => (.io, db)
  | some text => (.ok, run importLine db (fgetsLines 512 text))

/-- An empty database after calls of `htsn_vlan_manager_create_group`. -/
def createGroups (gs : List VlanGroupModel) : Db :=
  run (fun db g => (vlanManagerCreateGroup db g).2) Db.empty gs

/-- What the export of a database makes of an empty one. -/
def exchanged (db : Db) : Db := (vlanManagerImport Db.empty (vlanManagerExport db true).2).2

def Db.groupPairs (db : Db) : Set (CStr × Int32) :=
  {p | ∃ g ∈ db.vlanGroups.rows, (g.name.chars, g.vlanId) = p}

/-! ### Creating groups -/

/-- `create_group` saves what passes the check and drops the rest. -/
theorem createGroup_vlanGroups (db : Db) (g : VlanGroupModel) :
    (vlanManagerCreateGroup db g).2.vlanGroups =
      if vlanValidateGroup g = .ok then db.vlanGroups.upsert g else db.vlanGroups := by
  have hprepares : prepares .vlanGroupSave = true := by decide
  by_cases hvalid : vlanValidateGroup g = .ok
  · rw [vlanManagerCreateGroup, if_neg (not_not_intro hvalid), dbVlanGroupSave, if_pos hprepares,
      if_pos hvalid]
  · simp [vlanManagerCreateGroup, hvalid]

theorem mem_createGroup {db : Db} {g r : VlanGroup}
    (h : r ∈ (vlanManagerCreateGroup db g).2.vlanGroups.rows) :
    (r = g ∧ vlanValidateGroup g = .ok) ∨ r ∈ db.vlanGroups.rows := by
  rw [createGroup_vlanGroups] at h
  split at h
  · rename_i hvalid
    rcases (mem_upsertBy db.vlanGroups.pk).mp h with rfl | ⟨hr, -⟩
    · exact .inl ⟨rfl, hvalid⟩
    · exact .inr hr
  · exact .inr h

/-- Every stored group was created and passed the check. -/
theorem mem_createGroups {gs : List VlanGroupModel} {r : VlanGroup}
    (h : r ∈ (createGroups gs).vlanGroups.rows) : r ∈ gs ∧ vlanValidateGroup r = .ok := by
  have hrun : ∀ (gs : List VlanGroupModel) (db : Db),
      r ∈ (run (fun db g => (vlanManagerCreateGroup db g).2) db gs).vlanGroups.rows →
      (r ∈ gs ∧ vlanValidateGroup r = .ok) ∨ r ∈ db.vlanGroups.rows := by
    intro gs
    induction gs with
    | nil => exact fun _ h => .inr h
    | cons g gs ih =>
        intro db h
        rcases ih _ h with ⟨hr, hvalid⟩ | hr
        · exact .inl ⟨List.mem_cons_of_mem g hr, hvalid⟩
        · rcases mem_createGroup hr with ⟨rfl, hvalid⟩ | hr
          · exact .inl ⟨List.mem_cons_self, hvalid⟩
          · exact .inr hr
  rcases hrun gs Db.empty h with hr | hr
  · exact hr
  · cases hr

theorem range_of_valid {g : VlanGroup} (h : vlanValidateGroup g = .ok) :
    g.name.chars ≠ [] ∧ vlanIdMin ≤ g.vlanId ∧ g.vlanId ≤ vlanIdMax := by
  unfold vlanValidateGroup at h
  split at h
  · cases h
  · rename_i hrange
    split at h
    · cases h
    · rename_i hname
      rw [not_or, Int32.not_lt, gt_iff_lt, Int32.not_lt] at hrange
      exact ⟨fun heq => hname (by rw [heq]; rfl), hrange.1, hrange.2⟩

/-! ### Importing lines -/

/-- A group as the import creates it. -/
def VlanGroup.Imported (g : VlanGroup) : Prop :=
  ',' ∉ g.name.chars ∧ g.id = vlanGroupId g.vlanId

theorem importFormat_eq :
    importFormat = lits "VLAN,".toList ++ .set 255 ',' :: (lits [','] ++ [.int]) := rfl

/-- Whatever a line holds, the group it makes has a name without a comma. -/
theorem importLine_imported {db : Db} (line : CStr)
    (hdb : ∀ g ∈ db.vlanGroups.rows, g.Imported) :
    ∀ g ∈ (importLine db line).vlanGroups.rows, g.Imported := by
  unfold importLine
  simp only
  split
  · rename_i hargs
    intro g hg
    rcases mem_createGroup hg with ⟨rfl, -⟩ | hg
    · have hne : sscanf importFormat line ≠ [] := by
        intro heq
        rw [heq] at hargs
        cases hargs
      rw [importFormat_eq] at hne
      obtain ⟨word, rest, -, -, hlen, hcomma, hscan⟩ := sscanf_word_inv hne
      refine ⟨?_, rfl⟩
      have hword : argText (sscanf importFormat line) 0 = word := by
        rw [importFormat_eq, hscan]
        rfl
      rw [hword, Buf.copy_chars_of_lt (Nat.lt_succ_of_le hlen)]
      exact hcomma
    · exact hdb g hg
  · exact hdb

/-- The groups of every imported file. -/
theorem import_imported (file : Option CStr) :
    ∀ g ∈ (vlanManagerImport Db.empty file).2.vlanGroups.rows, g.Imported := by
  have hempty : ∀ g ∈ Db.empty.vlanGroups.rows, g.Imported := fun _ h => by cases h
  cases file with
  | none => exact hempty
  | some text =>
      exact @run_invariant _ _ importLine (fun db => ∀ g ∈ db.vlanGroups.rows, g.Imported)
        (fun _ line h => importLine_imported line h) _ hempty _

/-! ### The lines of an export -/

/-- The group that the line of a group makes. -/
def VlanGroup.renamed (g : VlanGroup) : VlanGroup := { g with id := vlanGroupId g.vlanId }

theorem exportGroup_eq (g : VlanGroup) (rest : CStr) :
    exportGroup g ++ rest =
      "VLAN,".toList ++ (g.name.chars ++ ([','] ++ (showInt g.vlanId.toInt ++ rest))) := by
  simp [exportGroup, exportFields, renderLine, Field.render]

/-- A group whose name has no comma is read from its line. -/
theorem sscanf_exportGroup {g : VlanGroup} (hname : g.name.chars ≠ [])
    (hcomma : ',' ∉ g.name.chars) :
    sscanf importFormat (exportGroup g ++ ['\n']) = [.text g.name.chars, .int g.vlanId] := by
  have hbefore : ∀ rest : CStr, ∀ c ∈ ([','] ++ rest).head?, c = ',' :=
    fun _ c hc => (Option.mem_some_iff.mp hc).symm
  have hnewline : ∀ c ∈ (['\n'] : CStr).head?, c.isDigit = false := by
    rintro _ ⟨⟩
    rfl
  rw [importFormat_eq, exportGroup_eq, sscanf_lits,
    sscanf_set _ hname (Nat.le_of_lt_succ g.name.fits) hcomma (hbefore _), sscanf_lits,
    sscanf_int _ _ hnewline]
  rfl

theorem renamed_valid {g : VlanGroup} (h : vlanValidateGroup g = .ok) :
    vlanValidateGroup g.renamed = .ok := h

/-- The line of a valid group whose name has no comma saves that group under
the id of its number. -/
theorem importLine_exportGroup (db : Db) {g : VlanGroup} (hvalid : vlanValidateGroup g = .ok)
    (hcomma : ',' ∉ g.name.chars) :
    (importLine db (exportGroup g ++ ['\n'])).vlanGroups = db.vlanGroups.upsert g.renamed := by
  have hgroup : (⟨vlanGroupId g.vlanId, Buf.copy 256 g.name.chars, g.vlanId⟩ : VlanGroup) =
      g.renamed := by
    rw [Buf.copy_self]
    rfl
  unfold importLine
  rw [sscanf_exportGroup (range_of_valid hvalid).1 hcomma]
  show (vlanManagerCreateGroup db ⟨vlanGroupId g.vlanId, Buf.copy 256 g.name.chars, g.vlanId⟩).2.vlanGroups
    = _
  rw [hgroup, createGroup_vlanGroups, if_pos (renamed_valid hvalid)]

/-- A line fits in the buffer of the import. -/
theorem exportGroup_length {g : VlanGroup} (hvalid : vlanValidateGroup g = .ok) :
    (exportGroup g).length + 1 < 512 := by
  obtain ⟨-, hlo, hhi⟩ := range_of_valid hvalid
  have hnumber : (showInt g.vlanId.toInt).length ≤ 4 + 1 := by
    apply showInt_length_le (by omega)
    rw [vlanIdMin, Int32.le_iff_toInt_le] at hlo
    rw [vlanIdMax, Int32.le_iff_toInt_le] at hhi
    have hmin : (1 : Int32).toInt = 1 := by decide
    have hmax : (4094 : Int32).toInt = 4094 := by decide
    omega
  have hname := g.name.fits
  have hlength : (exportGroup g).length = 5 + (g.name.chars.length +
      (1 + (showInt g.vlanId.toInt).length)) := by
    have heq := congrArg List.length (exportGroup_eq g [])
    rw [List.append_nil, List.append_nil] at heq
    rw [heq, List.length_append, List.length_append, List.length_append]
    rfl
  omega

theorem newline_not_mem_exportGroup {g : VlanGroup} (hline : '\n' ∉ g.name.chars) :
    '\n' ∉ exportGroup g := by
  apply not_mem_renderLine (by decide) (by decide)
  simp only [exportFields, List.forall_mem_cons]
  have htag : '\n' ∉ "VLAN,".toList := by decide
  have hsep : '\n' ∉ [','] := by decide
  exact ⟨htag, hline, hsep, trivial, fun _ h => by cases h⟩

/-! ### Export and import together -/

/-- What decides whether an export is imported as it was: no name holds a
comma, and a number has one name. -/
def Db.Exchangeable (db : Db) : Prop :=
  (∀ g ∈ db.vlanGroups.rows, ',' ∉ g.name.chars) ∧
    ∀ g ∈ db.vlanGroups.rows, ∀ h ∈ db.vlanGroups.rows, g.vlanId = h.vlanId → g.name = h.name

instance (db : Db) : Decidable db.Exchangeable :=
  inferInstanceAs (Decidable (_ ∧ _))

variable {db : Db}

/-- Without commas the import writes every group under its new id. -/
theorem exchanged_vlanGroups (hvalid : ∀ g ∈ db.vlanGroups.rows, vlanValidateGroup g = .ok)
    (hline : ∀ g ∈ db.vlanGroups.rows, '\n' ∉ g.name.chars)
    (hcomma : ∀ g ∈ db.vlanGroups.rows, ',' ∉ g.name.chars) :
    (exchanged db).vlanGroups =
      (db.vlanGroups.rows.map VlanGroup.renamed).foldl Table.upsert Table.empty := by
  have hprepares : prepares .vlanGroupSelect = true := by decide
  have hrun : ∀ (rows : List VlanGroup) (start : Db), (∀ g ∈ rows, g ∈ db.vlanGroups.rows) →
      (run importLine start (rows.map fun g => exportGroup g ++ ['\n'])).vlanGroups =
        (rows.map VlanGroup.renamed).foldl Table.upsert start.vlanGroups := by
    intro rows
    induction rows with
    | nil => exact fun _ _ => rfl
    | cons g rows ih =>
        intro start hrows
        obtain ⟨hg, hrest⟩ := List.forall_mem_cons.mp hrows
        rw [List.map_cons, run_cons, ih _ hrest, importLine_exportGroup _ (hvalid g hg) (hcomma g hg),
          List.map_cons, List.foldl_cons]
  have hlines : fgetsLines 512 (db.vlanGroups.rows.flatMap fun g => exportGroup g ++ ['\n']) =
      db.vlanGroups.rows.map fun g => exportGroup g ++ ['\n'] :=
    fgetsLines_flatMap exportGroup _ (fun g hg => newline_not_mem_exportGroup (hline g hg))
      fun g hg => exportGroup_length (hvalid g hg)
  have hfile : (vlanManagerExport db true).2 =
      some (db.vlanGroups.rows.flatMap fun g => exportGroup g ++ ['\n']) := by
    rw [vlanManagerExport, if_pos rfl, dbVlanGroupForEach, if_pos hprepares]
  rw [exchanged, hfile]
  show (run importLine Db.empty _).vlanGroups = _
  rw [hlines]
  exact hrun _ Db.empty fun _ hg => hg

/-- If no number has two names, the groups with new ids have the same pairs. -/
theorem groupPairs_exchanged (hvalid : ∀ g ∈ db.vlanGroups.rows, vlanValidateGroup g = .ok)
    (hline : ∀ g ∈ db.vlanGroups.rows, '\n' ∉ g.name.chars) (h : db.Exchangeable) :
    (exchanged db).groupPairs = db.groupPairs := by
  obtain ⟨hcomma, hname⟩ := h
  have hkey : ∀ r ∈ db.vlanGroups.rows.map VlanGroup.renamed,
      ∀ s ∈ db.vlanGroups.rows.map VlanGroup.renamed, PrimaryKey.key r = PrimaryKey.key s → r = s := by
    intro r hr s hs hk
    obtain ⟨a, ha, rfl⟩ := List.mem_map.mp hr
    obtain ⟨b, hb, rfl⟩ := List.mem_map.mp hs
    have hnumber : a.vlanId = b.vlanId := vlanGroupId_injective hk
    unfold VlanGroup.renamed
    rw [hname a ha b hb hnumber, hnumber]
  have hmem : ∀ z, z ∈ (exchanged db).vlanGroups.rows ↔
      z ∈ db.vlanGroups.rows.map VlanGroup.renamed := by
    intro z
    rw [exchanged_vlanGroups hvalid hline hcomma, Table.mem_foldl_upsert Table.empty hkey]
    simp
  ext p
  constructor
  · rintro ⟨g, hg, rfl⟩
    obtain ⟨r, hr, rfl⟩ := List.mem_map.mp ((hmem g).mp hg)
    exact ⟨r, hr, rfl⟩
  · rintro ⟨r, hr, rfl⟩
    exact ⟨r.renamed, (hmem _).mpr (List.mem_map_of_mem hr), rfl⟩

/-- What an import gave has no commas in names, and one name for a number. -/
theorem exchangeable_of_imported {db' : Db} (himported : ∀ g ∈ db'.vlanGroups.rows, g.Imported)
    (hpairs : db'.groupPairs = db.groupPairs) : db.Exchangeable := by
  have hback : ∀ g ∈ db.vlanGroups.rows, ∃ r ∈ db'.vlanGroups.rows,
      r.name = g.name ∧ r.vlanId = g.vlanId := by
    intro g hg
    have hpair : (g.name.chars, g.vlanId) ∈ db'.groupPairs := hpairs ▸ ⟨g, hg, rfl⟩
    obtain ⟨r, hr, heq⟩ := hpair
    rw [Prod.mk.injEq] at heq
    exact ⟨r, hr, Buf.chars_injective heq.1, heq.2⟩
  constructor
  · intro g hg
    obtain ⟨r, hr, hname, -⟩ := hback g hg
    exact hname ▸ (himported r hr).1
  · intro g hg h hh hnumber
    obtain ⟨r, hr, hrname, hrid⟩ := hback g hg
    obtain ⟨s, hs, hsname, hsid⟩ := hback h hh
    have hkey : PrimaryKey.key r = PrimaryKey.key s := by
      show r.id.chars = s.id.chars
      rw [(himported r hr).2, (himported s hs).2, hrid, hsid, hnumber]
    rw [← hrname, ← hsname, eq_of_key_eq db'.vlanGroups.pk hr hs hkey]

/-- Export and import give the pairs of name and number back exactly if no
stored name holds a comma and no number is stored under two names. -/
theorem export_import_iff (gs : List VlanGroupModel) (hline : ∀ g ∈ gs, '\n' ∉ g.name.chars) :
    (exchanged (createGroups gs)).groupPairs = (createGroups gs).groupPairs ↔
      (createGroups gs).Exchangeable := by
  constructor
  · exact exchangeable_of_imported (import_imported _)
  · exact groupPairs_exchanged (fun _ hg => (mem_createGroups hg).2)
      fun g hg => hline g (mem_createGroups hg).1

def groupOf (id name : String) (vlanId : Int32) : VlanGroupModel :=
  ⟨Buf.copy 256 id.toList, Buf.copy 256 name.toList, vlanId⟩

theorem export_import_plant :
    (exchanged (createGroups [groupOf "g1" "plant" 10, groupOf "g2" "cameras" 20])).groupPairs =
      (createGroups [groupOf "g1" "plant" 10, groupOf "g2" "cameras" 20]).groupPairs :=
  (export_import_iff [groupOf "g1" "plant" 10, groupOf "g2" "cameras" 20] (by decide)).mpr (by decide)

/-- The line `VLAN,a,b,10` gives the name `a` and no number. -/
theorem comma_not_imported : ¬ ∀ gs : List VlanGroupModel,
    (∀ g ∈ gs, vlanValidateGroup g = .ok ∧ '\n' ∉ g.name.chars) →
      (exchanged (createGroups gs)).groupPairs = (createGroups gs).groupPairs := by
  intro h
  have hpairs := h [groupOf "g1" "a,b" 10] (by decide)
  have hempty : (exchanged (createGroups [groupOf "g1" "a,b" 10])).vlanGroups.rows = [] := by
    decide +kernel
  have hstored : ("a,b".toList, 10) ∈ (createGroups [groupOf "g1" "a,b" 10]).groupPairs :=
    ⟨groupOf "g1" "a,b" 10, by decide, by decide⟩
  rw [← hpairs] at hstored
  obtain ⟨g, hg, -⟩ := hstored
  rw [hempty] at hg
  cases hg

end Htsn

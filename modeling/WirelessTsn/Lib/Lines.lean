import WirelessTsn.Lib.CString

/-!
A text file read line by line: `while (fgets(line, size, f))` gives the lines
with their newlines, a line that does not fit in pieces. Lines that fit come
back as they were written.
-/

namespace CText

/-- The lines behind what was read of the current one; a line has room for
`room` characters. -/
def fgetsFrom (room : Nat) (cur : CStr) : CStr → List CStr
  | [] => if cur = [] then [] else [cur]
  | c :: s =>
      if c = '\n' ∨ cur.length + 1 = room then (cur ++ [c]) :: fgetsFrom room [] s
      else fgetsFrom room (cur ++ [c]) s

/-- What `fgets` with a buffer of `size` bytes returns until the end of the
file; the last byte is the terminator's. -/
def fgetsLines (size : Nat) (text : CStr) : List CStr := fgetsFrom (size - 1) [] text

variable {room : Nat}

theorem fgetsFrom_line (cur : CStr) {line : CStr} (hline : '\n' ∉ line)
    (hroom : cur.length + line.length < room) (rest : CStr) :
    fgetsFrom room cur (line ++ '\n' :: rest) =
      (cur ++ line ++ ['\n']) :: fgetsFrom room [] rest := by
  induction line generalizing cur with
  | nil => simp [fgetsFrom]
  | cons c line ih =>
      rw [List.mem_cons, not_or] at hline
      rw [List.length_cons] at hroom
      have hgo : ¬ (c = '\n' ∨ cur.length + 1 = room) := by
        rintro (hc | hfull)
        · exact hline.1 hc.symm
        · omega
      have hlen : (cur ++ [c]).length + line.length < room := by
        rw [List.length_append, List.length_singleton]
        omega
      rw [List.cons_append, fgetsFrom, if_neg hgo, ih (cur ++ [c]) hline.2 hlen]
      simp

/-- Lines that are shorter than the buffer are read as they were written. -/
theorem fgetsLines_flatMap {α : Type} {size : Nat} (text : α → CStr) (items : List α)
    (hline : ∀ a ∈ items, '\n' ∉ text a) (hsize : ∀ a ∈ items, (text a).length + 1 < size) :
    fgetsLines size (items.flatMap fun a => text a ++ ['\n']) =
      items.map fun a => text a ++ ['\n'] := by
  unfold fgetsLines
  induction items with
  | nil => rfl
  | cons a items ih =>
      obtain ⟨hfirst, hrest⟩ := List.forall_mem_cons.mp hline
      obtain ⟨hfits, hrestFits⟩ := List.forall_mem_cons.mp hsize
      have hroom : ([] : CStr).length + (text a).length < size - 1 := by
        rw [List.length_nil]
        omega
      rw [List.flatMap_cons, List.append_assoc, List.singleton_append,
        fgetsFrom_line [] hfirst hroom, ih hrest hrestFits, List.nil_append, List.map_cons]

end CText

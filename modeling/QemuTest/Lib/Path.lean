import QemuTest.Lib.Text

/-!
# Paths

Unix paths. `PathBuf` is what a program does with a path of any encoding: it
joins names to it and displays it. A path that is a text is displayed as it
is.

`place` is where a text path leads: from the root or not, and the names on the
way. A tree of directories is the list of the places that are there.
-/

namespace Path

open Text

class PathBuf (P : Type) where
  join : P → Str → P
  display : P → Str

/-- `PathBuf::push`: an absolute path replaces the base, and a separator is
written where the base does not end in one. -/
def join (base name : Str) : Str :=
  if name.head? = some '/' then name
  else if base = [] ∨ base.getLast? = some '/' then base ++ name
  else base ++ '/' :: name

instance : PathBuf Str where
  join := join
  display p := p

/-! ## Places -/

/-- The names of a path: empty ones and `.` lead nowhere. -/
def parts (p : Str) : List Str :=
  (p.splitOn '/').filter fun s => s ≠ [] ∧ s ≠ ['.']

structure Place where
  absolute : Bool
  names : List Str
  deriving DecidableEq, Repr

def place (p : Str) : Place := ⟨p.head? = some '/', parts p⟩

def Place.child (d : Place) (name : Str) : Place := ⟨d.absolute, d.names ++ [name]⟩

def Place.parent (p : Place) : Place := ⟨p.absolute, p.names.dropLast⟩

@[simp] theorem parent_child (d : Place) (name : Str) : (d.child name).parent = d := by
  simp [Place.child, Place.parent]

@[simp] theorem parts_nil : parts [] = [] := by
  simp [parts]

theorem parts_append (a b : Str) : parts (a ++ '/' :: b) = parts a ++ parts b := by
  rw [parts, List.splitOn_append_cons_self, List.filter_append, parts, parts]

/-- A name is a path of one name. -/
theorem parts_name {s : Str} (h : '/' ∉ s) (hne : s ≠ []) (hdot : s ≠ ['.']) :
    parts s = [s] := by
  simp [parts, List.splitOn_eq_singleton h, hne, hdot]

/-- The last name of a path ends as the path does. -/
theorem getLast?_parts {a s : Str} (h : '/' ∉ s) (hlen : 2 ≤ s.length) :
    ∃ name, (parts (a ++ s)).getLast? = some name ∧ s <:+ name := by
  have hname : ∀ z : Str, '/' ∉ z → parts (z ++ s) = [z ++ s] := by
    intro z hz
    have hlen' : 2 ≤ (z ++ s).length := by
      rw [List.length_append]
      omega
    exact parts_name (by simp [hz, h]) (fun he => by simp [he] at hlen')
      (fun he => by simp [he] at hlen')
  by_cases hmem : '/' ∈ a
  · obtain ⟨z, y, hrev, hz⟩ := List.eq_append_cons_of_mem (List.mem_reverse.mpr hmem)
    have ha : a = y.reverse ++ '/' :: z.reverse := by
      rw [← List.reverse_reverse a, hrev]
      simp
    refine ⟨z.reverse ++ s, ?_, List.suffix_append _ _⟩
    rw [ha, List.append_assoc, List.cons_append, parts_append, hname _ (by simpa using hz)]
    simp
  · exact ⟨a ++ s, by rw [hname a hmem]; rfl, List.suffix_append _ _⟩

/-- A name joined to a directory leads to its child. -/
theorem place_join {name : Str} (h : '/' ∉ name) (hne : name ≠ []) (hdot : name ≠ ['.'])
    (dir : Str) : place (join dir name) = (place dir).child name := by
  have hhead : name.head? ≠ some '/' := fun he => h (List.mem_of_head? he)
  have hparts := parts_name h hne hdot
  rw [join, if_neg hhead]
  rcases List.eq_nil_or_concat dir with rfl | ⟨d, c, rfl⟩
  · simp [place, Place.child, hparts, hhead]
  · by_cases hc : c = '/'
    · subst hc
      have hd : parts (d ++ ['/']) = parts d := by simpa using parts_append d []
      have hlast : (d.concat '/').getLast? = some '/' := by simp
      rw [if_pos (.inr hlast), List.concat_eq_append, List.append_assoc, place, place,
        Place.child, List.singleton_append, parts_append, hparts, hd]
      cases d <;> rfl
    · have hlast : ¬ (d.concat c = [] ∨ (d.concat c).getLast? = some '/') := by simp [hc]
      rw [if_neg hlast, place, place, Place.child, parts_append, hparts]
      simp only [List.concat_eq_append]
      cases d <;> simp

/-! ## Trees -/

/-- `fs::create_dir_all`: every place on the way is there afterwards. -/
def createDirAll (dirs : List Place) (d : Place) : List Place :=
  dirs ++ d.names.inits.map fun names => ⟨d.absolute, names⟩

theorem mem_createDirAll (dirs : List Place) (d : Place) : d ∈ createDirAll dirs d := by
  refine List.mem_append_right _ (List.mem_map.mpr ⟨d.names, ?_, rfl⟩)
  exact List.mem_inits _ _ |>.mpr (List.prefix_refl _)

end Path

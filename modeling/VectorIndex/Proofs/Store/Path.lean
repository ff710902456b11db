import VectorIndex.Store.Staging

/-!
# Names in a directory

Joining a name to a directory appends it to the directory's location, whatever slashes and dots
the path of the directory holds, and the directory of the joined path is the directory again. So
two files of one directory are at different locations exactly when their names differ.
-/

namespace VectorIndex

/-- A name that stands for itself in a path. -/
structure Path.IsName (name : String) : Prop where
  ne_empty : name ≠ ""
  ne_dot : name ≠ "."
  ne_dots : name ≠ ".."
  no_slash : '/' ∉ name.toList

namespace Path

/-! ## The pieces of a path -/

theorem go_append_slash (reversed first rest : List Char) :
    pieces.go reversed (first ++ '/' :: rest) = pieces.go reversed first ++ pieces.go [] rest := by
  induction first generalizing reversed with
  | nil => simp [pieces.go]
  | cons c first ih =>
    rw [List.cons_append, pieces.go, pieces.go]
    split
    · rw [ih, List.cons_append]
    · exact ih _

theorem go_of_no_slash (reversed : List Char) {chars : List Char} (hchars : '/' ∉ chars) :
    pieces.go reversed chars = [String.ofList (reversed.reverse ++ chars)] := by
  induction chars generalizing reversed with
  | nil => simp [pieces.go]
  | cons c rest ih =>
    have hc : c ≠ '/' := fun hc ↦ hchars (hc ▸ List.mem_cons_self)
    have hrest : '/' ∉ rest := fun hrest ↦ hchars (List.mem_cons_of_mem c hrest)
    rw [pieces.go, if_neg hc, ih _ hrest]
    simp

theorem pieces_append_slash (first second : Path) :
    pieces (first ++ "/" ++ second) = pieces first ++ pieces second := by
  unfold pieces
  rw [String.toList_append, String.toList_append]
  simpa using go_append_slash [] first.toList second.toList

theorem pieces_empty : pieces "" = [""] := by simp [pieces, pieces.go]

theorem pieces_of_name {name : String} (hname : '/' ∉ name.toList) : pieces name = [name] := by
  unfold pieces
  rw [go_of_no_slash [] hname]
  simp

theorem isAbsolute_append {first : Path} (second : Path) (hfirst : first ≠ "") :
    isAbsolute (first ++ second) = isAbsolute first := by
  have hchars : first.toList ≠ [] := by simpa using hfirst
  obtain ⟨c, rest, hcons⟩ := List.exists_cons_of_ne_nil hchars
  simp [isAbsolute, hcons]

theorem isAbsolute_of_no_slash {name : String} (hname : '/' ∉ name.toList) :
    isAbsolute name = false := by
  unfold isAbsolute
  cases hchars : name.toList with
  | nil => rfl
  | cons c rest =>
    have hc : c ≠ '/' := fun hc ↦ hname (by simp [hchars, hc])
    simp [hc]

/-- A path that ends with a slash is another path with a slash behind it. -/
theorem exists_of_endsWithSlash {path : Path} (hslash : endsWithSlash path = true) :
    ∃ first, path = first ++ "/" := by
  unfold endsWithSlash at hslash
  obtain ⟨first, hfirst⟩ := List.getLast?_eq_some_iff.mp (of_decide_eq_true hslash)
  refine ⟨String.ofList first, ?_⟩
  rw [← String.toList_inj]
  simp [hfirst]

end Path

namespace Location

theorem resolve_append (first second : List String) (reversed : Location) :
    resolve (first ++ second) reversed = resolve second (resolve first reversed).reverse := by
  induction first generalizing reversed with
  | nil => simp [resolve]
  | cons piece first ih =>
    rw [List.cons_append, resolve, resolve]
    split
    · exact ih _
    · split
      · exact ih _
      · exact ih _

theorem resolve_name {name : String} (hname : Path.IsName name) (reversed : Location) :
    resolve [name] reversed = reversed.reverse ++ [name] := by
  simp [resolve, hname.ne_empty, hname.ne_dot, hname.ne_dots]

/-- The location of a directory; the empty path stands for the one without names. -/
def ofDirectory (directory : Path) : Location := (ofPath directory).getD []

theorem ofPath_of_ne_empty {path : Path} (hpath : path ≠ "") :
    ofPath path = some (ofDirectory path) := by
  simp [ofDirectory, ofPath, hpath]

/-- Where a directory is staged in, the empty path being the working directory. -/
theorem ofPath_staging (directory : Path) :
    ofPath (if directory.isEmpty then "." else directory) = some (ofDirectory directory) := by
  by_cases hempty : directory = ""
  · subst hempty
    decide
  · simp only [String.isEmpty_iff, hempty, if_false]
    exact ofPath_of_ne_empty hempty

theorem ofPath_append_name {first : Path} {name : String} (hname : Path.IsName name)
    (hfirst : first ≠ "") :
    ofPath (first ++ "/" ++ name) = some (ofDirectory first ++ [name]) := by
  have hne : first ++ "/" ++ name ≠ "" := by simp [hfirst]
  have habsolute : Path.isAbsolute (first ++ "/" ++ name) = Path.isAbsolute first := by
    rw [String.append_assoc]
    exact Path.isAbsolute_append _ hfirst
  simp only [ofDirectory, ofPath, String.isEmpty_iff, hne, hfirst, if_false, habsolute,
    Path.pieces_append_slash, Path.pieces_of_name hname.no_slash, resolve_append,
    resolve_name hname, List.reverse_reverse]
  split <;> simp

/-- A slash at the end of a path changes nothing. -/
theorem ofPath_append_slash {first : Path} (hfirst : first ≠ "") :
    ofPath (first ++ "/") = ofPath first := by
  have hne : first ++ "/" ≠ "" := by simp [hfirst]
  have hpieces : Path.pieces (first ++ "/") = Path.pieces first ++ [""] := by
    have happend := Path.pieces_append_slash first ""
    rwa [String.append_empty, Path.pieces_empty] at happend
  simp [ofPath, hne, hfirst, Path.isAbsolute_append, hpieces, resolve_append, resolve]

theorem ofPath_slash_append_name {name : String} (hname : Path.IsName name) :
    ofPath ("/" ++ name) = some ["/", name] := by
  have hpieces : Path.pieces ("/" ++ name) = ["", name] := by
    have happend := Path.pieces_append_slash "" name
    rwa [String.empty_append, Path.pieces_empty, Path.pieces_of_name hname.no_slash] at happend
  have habsolute : Path.isAbsolute ("/" ++ name) = true := by simp [Path.isAbsolute]
  simp [ofPath, hpieces, habsolute, resolve, hname.ne_empty, hname.ne_dot, hname.ne_dots]

/-- A name joined to a directory is at the directory's location with the name behind it. -/
theorem ofPath_join (directory : Path) {name : String} (hname : Path.IsName name) :
    ofPath (Path.join directory name) = some (ofDirectory directory ++ [name]) := by
  unfold Path.join
  rw [Path.isAbsolute_of_no_slash hname.no_slash]
  by_cases hempty : directory = ""
  · subst hempty
    simp [ofDirectory, ofPath, hname.ne_empty, Path.isAbsolute_of_no_slash hname.no_slash,
      Path.pieces_of_name hname.no_slash, resolve_name hname]
  · simp only [Bool.false_or, String.isEmpty_iff, hempty, if_false]
    split
    · next hslash =>
      obtain ⟨first, rfl⟩ := Path.exists_of_endsWithSlash hslash
      by_cases hfirst : first = ""
      · subst hfirst
        rw [String.empty_append, ofPath_slash_append_name hname]
        rfl
      · rw [ofPath_append_name hname hfirst, ofDirectory, ofDirectory, ofPath_append_slash hfirst]
    · exact ofPath_append_name hname hempty

end Location

/-! ## The directory of a file -/

namespace Path

theorem exists_trailing_slashes (chars : List Char) : ∃ kept count,
    chars = kept ++ List.replicate count '/' ∧
      chars.reverse.dropWhile (· = '/') = kept.reverse := by
  have hsplit := List.takeWhile_append_dropWhile (p := (· = '/')) (l := chars.reverse)
  have hslashes : chars.reverse.takeWhile (· = '/') =
      List.replicate (chars.reverse.takeWhile (· = '/')).length '/' := by
    apply List.eq_replicate_of_mem
    intro c hc
    simpa using List.all_eq_true.mp List.all_takeWhile c hc
  refine ⟨(chars.reverse.dropWhile (· = '/')).reverse,
    (chars.reverse.takeWhile (· = '/')).length, ?_, by rw [List.reverse_reverse]⟩
  rw [← List.reverse_inj, List.reverse_append, List.reverse_reverse, List.reverse_replicate,
    ← hslashes, hsplit]

/-- The part of a joined path before the name, which is empty or ends with a slash. -/
theorem exists_front (directory : Path) {name : String} (hname : IsName name) :
    ∃ front : Path, join directory name = front ++ name ∧
      ((directory = "" ∧ front = "") ∨
        (directory ≠ "" ∧ endsWithSlash front = true ∧
          Location.ofPath front = Location.ofPath directory)) := by
  unfold join
  rw [isAbsolute_of_no_slash hname.no_slash]
  by_cases hempty : directory = ""
  · exact ⟨"", by simp [hempty], .inl ⟨hempty, rfl⟩⟩
  · simp only [Bool.false_or, String.isEmpty_iff, hempty, if_false]
    split
    · next hslash => exact ⟨directory, rfl, .inr ⟨hempty, hslash, rfl⟩⟩
    · exact ⟨directory ++ "/", rfl,
        .inr ⟨hempty, by simp [endsWithSlash], Location.ofPath_append_slash hempty⟩⟩

end Path

namespace Location

theorem ofPath_append_slashes {first : Path} (hfirst : first ≠ "") (count : Nat) :
    ofPath (first ++ String.ofList (List.replicate count '/')) = ofPath first := by
  induction count with
  | zero => simp
  | succ count ih =>
    have hlast : first ++ String.ofList (List.replicate (count + 1) '/') =
        first ++ String.ofList (List.replicate count '/') ++ "/" := by
      rw [← String.toList_inj]
      simp [List.replicate_succ']
    rw [hlast, ofPath_append_slash (by simp [hfirst]), ih]

end Location

namespace Path

theorem dropTrailingSlashes_append_name (front : Path) {name : String} (hname : IsName name) :
    dropTrailingSlashes (front ++ name) = front ++ name := by
  have hchars : name.toList.reverse ≠ [] := by simpa using hname.ne_empty
  obtain ⟨last, rest, hcons⟩ := List.exists_cons_of_ne_nil hchars
  have hlast : last ≠ '/' := by
    intro hslash
    apply hname.no_slash
    rw [← List.mem_reverse, hcons, hslash]
    exact List.mem_cons_self
  have hkept : (front ++ name).toList.reverse.dropWhile (· = '/') =
      (front ++ name).toList.reverse := by
    rw [String.toList_append, List.reverse_append, hcons, List.cons_append,
      List.dropWhile_cons_of_neg (by simpa using hlast)]
  unfold dropTrailingSlashes
  rw [hkept, List.reverse_reverse, String.ofList_toList]

theorem dropWhile_append_name {front : Path} {name : String} (hname : IsName name)
    (hfront : front = "" ∨ endsWithSlash front = true) :
    (front ++ name).toList.reverse.dropWhile (· ≠ '/') = front.toList.reverse := by
  have hall : ∀ c ∈ name.toList.reverse, decide (c ≠ '/') = true := by
    intro c hc
    rw [decide_eq_true_iff]
    rintro rfl
    exact hname.no_slash (List.mem_reverse.mp hc)
  rw [String.toList_append, List.reverse_append, List.dropWhile_append_of_pos hall]
  rcases hfront with rfl | hslash
  · rfl
  · obtain ⟨first, rfl⟩ := exists_of_endsWithSlash hslash
    simp

/-- The directory above a name: nothing, or what is left of the front without its last slashes. -/
theorem parent?_append_name {front : Path} {name : String} (hname : IsName name)
    (hfront : front = "" ∨ endsWithSlash front = true) :
    parent? (front ++ name) = some (match front.toList.reverse.dropWhile (· = '/') with
      | [] => if front.isEmpty then "" else "/"
      | rest => String.ofList rest.reverse) := by
  have hne : (front ++ name).isEmpty = false := by
    rw [← Bool.not_eq_true, String.isEmpty_iff]
    simp [hname.ne_empty]
  have hempty : front.toList.reverse.isEmpty = front.isEmpty := by
    rw [Bool.eq_iff_iff, List.isEmpty_iff, String.isEmpty_iff, List.reverse_eq_nil_iff,
      String.toList_eq_nil_iff]
  simp only [parent?, dropTrailingSlashes_append_name front hname,
    dropWhile_append_name hname hfront, hne, hempty, Bool.false_eq_true, if_false]
  cases front.toList.reverse.dropWhile (· = '/') <;> rfl

end Path

namespace Location

/-- Without its last slashes a path leads where it led, and to the root if nothing is left. -/
theorem ofPath_dropWhile_slashes {front : Path} (hfront : front ≠ "") :
    ofPath (match front.toList.reverse.dropWhile (· = '/') with
      | [] => "/"
      | rest => String.ofList rest.reverse) = ofPath front := by
  obtain ⟨kept, count, hkept, hdrop⟩ := Path.exists_trailing_slashes front.toList
  have hsplit : front = String.ofList kept ++ String.ofList (List.replicate count '/') := by
    rw [← String.toList_inj]
    simpa using hkept
  rw [hdrop]
  cases hreverse : kept.reverse with
  | nil =>
    obtain rfl : kept = [] := List.reverse_eq_nil_iff.mp hreverse
    cases count with
    | zero => exact absurd hsplit hfront
    | succ count =>
      have hslashes : front = "/" ++ String.ofList (List.replicate count '/') := by
        rw [hsplit, ← String.toList_inj]
        simp [List.replicate_succ]
      rw [hslashes, ofPath_append_slashes (by decide)]
  | cons c rest =>
    have hreversed : (c :: rest).reverse = kept := by rw [← hreverse, List.reverse_reverse]
    have hne : String.ofList kept ≠ "" := by
      rw [ne_eq, ← String.toList_inj]
      simp [← hreversed]
    show ofPath (String.ofList (c :: rest).reverse) = ofPath front
    rw [hreversed, hsplit, ofPath_append_slashes hne]

/-- The directory of a file in a directory is that directory. -/
theorem ofPath_directoryOf_join (directory : Path) {name : String} (hname : Path.IsName name) :
    ofPath (StagedFile.directoryOf (Path.join directory name)) =
      some (ofDirectory directory) := by
  obtain ⟨front, hjoin, hfront⟩ := Path.exists_front directory hname
  have hparent := Path.parent?_append_name hname (hfront.imp And.right fun h ↦ h.2.1)
  unfold StagedFile.directoryOf
  rw [hjoin, hparent]
  rcases hfront with ⟨rfl, rfl⟩ | ⟨hdirectory, hslash, hsame⟩
  · rfl
  · have hne : front ≠ "" := by
      rintro rfl
      simp [Path.endsWithSlash] at hslash
    have hplace := ofPath_dropWhile_slashes hne
    have hempty : front.isEmpty = false := by simpa using hne
    rw [← ofPath_of_ne_empty hdirectory, ← hsame, ← hplace]
    cases front.toList.reverse.dropWhile (· = '/') with
    | nil => simp [hempty]
    | cons c rest =>
      have hrest : String.ofList (c :: rest).reverse ≠ "" := by
        rw [ne_eq, ← String.toList_inj]
        simp
      simp only [String.isEmpty_iff, hrest, if_false]

theorem ofDirectory_directoryOf_join (directory : Path) {name : String}
    (hname : Path.IsName name) :
    ofDirectory (StagedFile.directoryOf (Path.join directory name)) = ofDirectory directory := by
  show (ofPath _).getD [] = _
  rw [ofPath_directoryOf_join directory hname]
  rfl

end Location

/-! ## The last name of a path -/

namespace Path

theorem dropTrailingSlashes_of_not_endsWithSlash {path : Path}
    (hslash : endsWithSlash path = false) : dropTrailingSlashes path = path := by
  have hkept : path.toList.reverse.dropWhile (· = '/') = path.toList.reverse := by
    cases hreverse : path.toList.reverse with
    | nil => rfl
    | cons last rest =>
      have hlast : last ≠ '/' := by
        rintro rfl
        have hlast : path.toList.getLast? = some '/' := by
          rw [List.getLast?_eq_head?_reverse, hreverse]
          rfl
        simp [endsWithSlash, hlast] at hslash
      exact List.dropWhile_cons_of_neg (by simpa using hlast)
  unfold dropTrailingSlashes
  rw [hkept, List.reverse_reverse, String.ofList_toList]

theorem suffix_join (directory : Path) (name : String) :
    name.toList <:+ (join directory name).toList := by
  unfold join
  split
  · exact List.suffix_rfl
  · split
    · rw [String.toList_append]
      exact List.suffix_append _ _
    · rw [String.toList_append]
      exact List.suffix_append _ _

theorem endsWithSlash_join (directory : Path) {name : String} (hname : IsName name) :
    endsWithSlash (join directory name) = false := by
  have hchars : name.toList ≠ [] := by simpa using hname.ne_empty
  obtain ⟨front, hfront⟩ := suffix_join directory name
  unfold endsWithSlash
  rw [← hfront, List.getLast?_append, List.getLast?_eq_some_getLast hchars]
  simp only [Option.some_or, Option.some.injEq, decide_eq_false_iff_not]
  exact fun heq ↦ hname.no_slash (heq ▸ List.getLast_mem hchars)

/-- What a path ends with, if there is no slash in it, is the end of its last name. -/
theorem suffix_fileName {path : Path} {ending : List Char} (hending : ending <:+ path.toList)
    (hne : ending ≠ []) (hslash : '/' ∉ ending) :
    endsWithSlash path = false ∧ ending <:+ (fileName path).toList := by
  obtain ⟨front, hpath⟩ := hending
  have hlast : endsWithSlash path = false := by
    have hmem := List.getLast_mem hne
    rw [endsWithSlash, ← hpath, List.getLast?_append, List.getLast?_eq_some_getLast hne]
    simp only [Option.some_or, Option.some.injEq, decide_eq_false_iff_not]
    exact fun heq ↦ hslash (heq ▸ hmem)
  refine ⟨hlast, ?_⟩
  have hall : ∀ c ∈ ending.reverse, decide (c ≠ '/') = true := by
    intro c hc
    rw [decide_eq_true_iff]
    rintro rfl
    exact hslash (List.mem_reverse.mp hc)
  unfold fileName
  rw [dropTrailingSlashes_of_not_endsWithSlash hlast, ← hpath, List.reverse_append,
    List.takeWhile_append_of_pos hall, String.toList_ofList, List.reverse_append,
    List.reverse_reverse]
  exact List.suffix_append _ _

theorem slash_not_mem_fileName (path : Path) : '/' ∉ (fileName path).toList := by
  unfold fileName
  rw [String.toList_ofList, List.mem_reverse]
  intro hslash
  simpa using List.all_eq_true.mp List.all_takeWhile '/' hslash

/-- A path is its last name behind nothing or behind a slash. -/
theorem exists_fileName {path : Path} (hslash : endsWithSlash path = false) :
    ∃ front : Path, path = front ++ fileName path ∧ (front = "" ∨ endsWithSlash front = true) := by
  have hsplit := List.takeWhile_append_dropWhile (p := (· ≠ '/')) (l := path.toList.reverse)
  refine ⟨String.ofList (path.toList.reverse.dropWhile (· ≠ '/')).reverse, ?_, ?_⟩
  · unfold fileName
    rw [dropTrailingSlashes_of_not_endsWithSlash hslash, ← String.toList_inj]
    rw [String.toList_append, String.toList_ofList, String.toList_ofList, ← List.reverse_append,
      hsplit, List.reverse_reverse]
  · cases hdrop : path.toList.reverse.dropWhile (· ≠ '/') with
    | nil => exact .inl rfl
    | cons c rest =>
      refine .inr ?_
      have hc := List.head?_dropWhile_not (· ≠ '/') path.toList.reverse
      rw [hdrop] at hc
      simp [endsWithSlash] at hc ⊢
      exact hc

end Path

namespace Location

theorem ofPath_front_append_name {front : Path} {name : String} (hname : Path.IsName name)
    (hfront : front = "" ∨ Path.endsWithSlash front = true) :
    ∃ parents, ofPath (front ++ name) = some (parents ++ [name]) := by
  rcases hfront with rfl | hslash
  · have hjoin := ofPath_join "" hname
    rw [Path.join, Path.isAbsolute_of_no_slash hname.no_slash] at hjoin
    exact ⟨_, by simpa using hjoin⟩
  · obtain ⟨first, rfl⟩ := Path.exists_of_endsWithSlash hslash
    by_cases hfirst : first = ""
    · subst hfirst
      rw [String.empty_append, ofPath_slash_append_name hname]
      exact ⟨["/"], rfl⟩
    · exact ⟨_, ofPath_append_name hname hfirst⟩

/-- A path leads to its last name in some directory. -/
theorem ofPath_fileName {path : Path} (hname : Path.IsName (Path.fileName path))
    (hslash : Path.endsWithSlash path = false) :
    ∃ parents, ofPath path = some (parents ++ [Path.fileName path]) := by
  obtain ⟨front, hpath, hfront⟩ := Path.exists_fileName hslash
  obtain ⟨parents, hlocation⟩ := ofPath_front_append_name hname hfront
  exact ⟨parents, (congrArg ofPath hpath).trans hlocation⟩

end Location
end VectorIndex

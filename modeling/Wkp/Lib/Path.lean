import Wkp.Lib.Str

/-!
# Unix paths

Paths as strings and as lists of components, with the rules of `std::path`.

* `Path.components` : the components of a path string.
* `Path.parent`, `Path.join`, `Path.pop`, `Path.push` : on components.
* `Path.display` : components back to a string.
* `Path.normalize` : where a path leads, as the names on the way there from the root.
* `Path.under`, `Path.joinStr` : a path under a root, and `Path::join`, as strings.
* `Path.resolve` : where a path leads from a working directory.
* `Path.walk` : how far up a path leads, and down from there.
* `Path.resolve_joinStr` : a joined path leads where its second part leads from the first.
-/

namespace Rust

/-- A component of a path. -/
inductive Component
  | rootDir | curDir | parentDir
  | normal (name : Str)
  deriving DecidableEq, Repr

namespace Path

/-- The string form of a component. -/
def componentStr : Component → Str
  | .rootDir => ['/']
  | .curDir => ['.']
  | .parentDir => ['.', '.']
  | .normal name => name

/-- A non-empty name between two slashes, `.` excepted. -/
def nameComponent (name : Str) : Component :=
  if name = ['.', '.'] then .parentDir else .normal name

/-- The components of a path: repeated slashes are one, and `.` counts only at the beginning of a
relative path. -/
def components (p : Str) : List Component :=
  let names := (split '/' p).filter (· ≠ [])
  let later := (names.filter (· ≠ ['.'])).map nameComponent
  if p.head? = some '/' then .rootDir :: later
  else if names.head? = some ['.'] then .curDir :: later
  else later

/-- The components without the last, unless there is none or it is the root. -/
def parent (cs : List Component) : Option (List Component) :=
  match cs.getLast? with
  | none | some .rootDir => none
  | some _ => some cs.dropLast

/-- `dir.join(raw)`: an absolute path replaces the directory. -/
def join (dir : List Component) (raw : Str) : List Component :=
  if raw.head? = some '/' ∨ dir = [] then components raw
  else dir ++ (components raw).filter (· ≠ .curDir)

/-- `PathBuf::pop`: the path without its last component, and whether it had one. -/
def pop (cs : List Component) : List Component × Bool :=
  match parent cs with
  | none => (cs, false)
  | some dir => (dir, true)

/-- `PathBuf::push` of one component. -/
def push (cs : List Component) (c : Component) : List Component :=
  if c = .rootDir then [.rootDir] else cs ++ [c]

/-- A list of components as a string. -/
def display (cs : List Component) : Str :=
  match cs with
  | .rootDir :: rest => '/' :: Rust.join ['/'] (rest.map componentStr)
  | _ => Rust.join ['/'] (cs.map componentStr)

/-- Where a component leads from the end of a list of names. -/
def follow (names : List Str) : Component → List Str
  | .normal name => names ++ [name]
  | .parentDir => names.dropLast
  | .rootDir | .curDir => names

/-- The names from the root to where a path leads: `..` takes one back, without a look at the
disk. -/
def normalize (cs : List Component) : List Str := cs.foldl follow []

/-- The names that a relative path leads down, unless some `..` leads above where it starts. -/
def descend : List Str → List Component → Option (List Str)
  | names, [] => some names
  | names, .parentDir :: cs => if names = [] then none else descend names.dropLast cs
  | names, c :: cs => descend (follow names c) cs

/-- `Path::file_name`. -/
def fileName (p : Str) : Option Str :=
  match (components p).getLast? with
  | some (.normal name) => some name
  | _ => none

/-- `Path::extension`: what follows the last dot of the file name, unless the name starts with that
dot. -/
def extension (p : Str) : Option Str :=
  (fileName p).bind fun name => match splitOnce '.' name.reverse with
    | none => none
    | some (after, before) => if before = [] then none else some after.reverse

theorem suffix_of_extension {p ext : Str} (h : extension p = some ext) :
    ∃ name, fileName p = some name ∧ '.' :: ext <:+ name := by
  obtain ⟨name, hname, hext⟩ := Option.bind_eq_some_iff.1 h
  refine ⟨name, hname, ?_⟩
  cases hs : splitOnce '.' name.reverse with
  | none => rw [hs] at hext; cases hext
  | some cut =>
    obtain ⟨after, before⟩ := cut
    rw [hs] at hext
    dsimp only at hext
    split_ifs at hext
    obtain rfl := Option.some.inj hext
    obtain ⟨hrev, -⟩ := splitOnce_eq_some hs
    refine ⟨before.reverse, ?_⟩
    rw [← List.reverse_reverse name, hrev, List.reverse_append, List.reverse_cons, List.append_assoc]
    rfl

theorem exists_split_eq (p : Str) : ∃ init last, split '/' p = init ++ [last] ∧
    p = init.flatMap (· ++ ['/']) ++ last := by
  have hne : split '/' p ≠ [] := List.splitOn_ne_nil _ _
  refine ⟨(split '/' p).dropLast, (split '/' p).getLast hne, ?_, ?_⟩
  · exact (List.dropLast_append_getLast hne).symm
  · have hjoin : Rust.join ['/'] (split '/' p) ++ ['/'] = _ := join_append_sep hne
    rw [← List.dropLast_append_getLast hne, List.flatMap_append, List.flatMap_singleton,
      List.dropLast_append_getLast hne, ← List.append_assoc] at hjoin
    have hp : Rust.join ['/'] (split '/' p) = p := List.intercalate_splitOn '/'
    rw [hp] at hjoin
    exact List.append_cancel_right hjoin

/-- The file name ends like the path, unless this ends in a slash or a dot. -/
theorem getLast?_fileName {p name : Str} {c : Char} (hp : p.getLast? = some c) (hslash : c ≠ '/')
    (hdot : c ≠ '.') (h : fileName p = some name) : name.getLast? = some c := by
  obtain ⟨init, last, hsplit, hpath⟩ := exists_split_eq p
  have hlast : last.getLast? = some c := by
    rw [hpath, List.getLast?_append] at hp
    cases hl : last.getLast? with
    | some d => rwa [hl] at hp
    | none =>
      -- what comes before the last piece ends in a slash
      rw [hl, Option.none_or] at hp
      rcases List.eq_nil_or_concat init with rfl | ⟨init', name', rfl⟩
      · cases hp
      · rw [List.concat_eq_append, List.flatMap_append, List.flatMap_singleton, ← List.append_assoc,
          List.getLast?_append] at hp
        exact absurd (Option.some.inj hp).symm hslash
  have hnil : last ≠ [] := by
    rintro rfl
    cases hlast
  have hcur : last ≠ ['.'] := by
    rintro rfl
    exact hdot (Option.some.inj hlast).symm
  have hcomponents : ∃ cs, components p = cs ++ [nameComponent last] := by
    rw [components, hsplit, List.filter_append, List.filter_cons_of_pos (by simpa using hnil),
      List.filter_nil, List.filter_append, List.filter_cons_of_pos (by simpa using hcur), List.filter_nil,
      List.map_append, List.map_singleton]
    split_ifs
    · exact ⟨_, (List.cons_append ..).symm⟩
    · exact ⟨_, (List.cons_append ..).symm⟩
    · exact ⟨_, rfl⟩
  obtain ⟨cs, hcs⟩ := hcomponents
  rw [fileName, hcs, List.getLast?_append, List.getLast?_singleton, Option.some_or,
    nameComponent] at h
  split_ifs at h with hdots
  cases h
  exact hlast

theorem foldl_follow_normal (acc names : List Str) :
    (names.map Component.normal).foldl follow acc = acc ++ names := by
  induction names generalizing acc with
  | nil => rw [List.map_nil, List.foldl_nil, List.append_nil]
  | cons name names ih =>
    rw [List.map_cons, List.foldl_cons, ih, follow, List.append_assoc, List.singleton_append]

theorem descend_filter_curDir (acc : List Str) (cs : List Component) :
    descend acc (cs.filter (· ≠ .curDir)) = descend acc cs := by
  induction cs generalizing acc with
  | nil => rfl
  | cons c cs ih =>
    cases c with
    | curDir => exact ih acc
    | parentDir =>
      rw [List.filter_cons_of_pos (by decide), descend, descend]
      exact ite_congr rfl (fun _ => rfl) fun _ => ih _
    | normal name => exact ih (acc ++ [name])
    | rootDir => exact ih acc

/-- A path that stays under where it starts leads to the same names from anywhere. -/
theorem foldl_follow_of_descend {root acc names : List Str} {cs : List Component}
    (h : descend acc cs = some names) : cs.foldl follow (root ++ acc) = root ++ names := by
  induction cs generalizing acc with
  | nil =>
    rw [descend] at h
    rw [List.foldl_nil, Option.some.inj h]
  | cons c cs ih =>
    rw [List.foldl_cons]
    cases c with
    | parentDir =>
      rw [descend] at h
      split_ifs at h with hacc
      rw [follow, List.dropLast_append_of_ne_nil hacc]
      exact ih h
    | normal name =>
      rw [follow, List.append_assoc]
      exact ih h
    | rootDir | curDir => exact ih h

/-- A path under a root, as the string that `root.join(path).display()` gives for a relative
`path`. -/
def under (root path : Str) : Str :=
  if root = [] ∨ root.getLast? = some '/' then root ++ path else root ++ '/' :: path

/-- `Path::join` on strings. -/
def joinStr (root raw : Str) : Str := if raw.head? = some '/' then raw else under root raw

theorem under_injective (root : Str) : Function.Injective (under root) := by
  intro p q h
  unfold under at h
  split_ifs at h
  · exact List.append_cancel_left h
  · exact (List.cons.inj (List.append_cancel_left h)).2

theorem joinStr_ne {root p q : Str} (hp : p.head? ≠ some '/') (hq : q.head? ≠ some '/')
    (h : p ≠ q) : joinStr root p ≠ joinStr root q := by
  unfold joinStr
  rw [if_neg hp, if_neg hq]
  exact (under_injective root).ne h

/-- The names from the root to where a path leads from a working directory, without a look at the
disk. -/
def resolve (cwd : List Str) (p : Str) : List Str :=
  (components p).foldl follow (if p.head? = some '/' then [] else cwd)

/-- A name that is one component. -/
def PlainName (name : Str) : Prop := name ≠ [] ∧ '/' ∉ name ∧ name ≠ ['.'] ∧ name ≠ ['.', '.']

instance (name : Str) : Decidable (PlainName name) :=
  inferInstanceAs (Decidable (name ≠ [] ∧ '/' ∉ name ∧ name ≠ ['.'] ∧ name ≠ ['.', '.']))

theorem plainName_of_mem_components {path name : Str}
    (h : Component.normal name ∈ components path) : PlainName name := by
  have hname : ∀ piece, nameComponent piece = .normal name → piece = name ∧ piece ≠ ['.', '.'] := by
    intro piece hp
    rw [nameComponent] at hp
    split_ifs at hp with hdots
    exact ⟨Component.normal.inj hp, hdots⟩
  rw [components] at h
  split_ifs at h
  all_goals
    simp only [List.mem_cons, List.mem_map, List.mem_filter, reduceCtorEq, false_or,
      decide_eq_true_eq] at h
    obtain ⟨piece, ⟨⟨hpiece, hne⟩, hdot⟩, hp⟩ := h
    obtain ⟨rfl, hdots⟩ := hname piece hp
    exact ⟨hne, notMem_of_mem_split hpiece, hdot, hdots⟩

/-- Where a piece between two slashes leads. -/
def followPiece (names : List Str) (piece : Str) : List Str :=
  if piece = [] ∨ piece = ['.'] then names else follow names (nameComponent piece)

theorem foldl_components (acc : List Str) (p : Str) :
    (components p).foldl follow acc = (split '/' p).foldl followPiece acc := by
  have hlater : ∀ acc : List Str, ((((split '/' p).filter (· ≠ [])).filter (· ≠ ['.'])).map
      nameComponent).foldl follow acc = (split '/' p).foldl followPiece acc := by
    intro acc
    rw [List.foldl_map, List.foldl_filter, List.foldl_filter]
    congr 1
    funext names piece
    unfold followPiece
    by_cases hnil : piece = []
    · simp [hnil]
    · by_cases hdot : piece = ['.']
      · simp [hdot]
      · simp [hnil, hdot]
  rw [← hlater, components]
  split_ifs <;> rfl

theorem resolve_eq (cwd : List Str) (p : Str) :
    resolve cwd p = (split '/' p).foldl followPiece (if p.head? = some '/' then [] else cwd) :=
  foldl_components _ p

theorem foldl_followPiece_split_append (acc : List Str) (p q : Str) :
    (split '/' (p ++ '/' :: q)).foldl followPiece acc =
      (split '/' q).foldl followPiece ((split '/' p).foldl followPiece acc) := by
  rw [split, List.splitOn_append_cons_self, List.foldl_append]
  rfl

/-- A joined path leads where its second part leads from the first. -/
theorem resolve_joinStr (cwd : List Str) (root raw : Str) :
    resolve cwd (joinStr root raw) = resolve (resolve cwd root) raw := by
  unfold joinStr
  split_ifs with habs
  · rw [resolve_eq, resolve_eq (resolve cwd root), if_pos habs, if_pos habs]
  · rw [resolve_eq (resolve cwd root), if_neg habs]
    unfold under
    split_ifs with hroot
    · rcases hroot with rfl | hslash
      · rw [List.nil_append, resolve_eq, if_neg habs]
        rfl
      · -- the root ends with the slash
        obtain ⟨r, rfl⟩ : ∃ r, root = r ++ ['/'] := by
          obtain ⟨hne, hlast⟩ := List.getLast?_eq_some_iff.1 hslash
          exact ⟨hne, hlast⟩
        have hhead : (r ++ ['/'] ++ raw).head? = (r ++ ['/']).head? := by cases r <;> rfl
        rw [resolve_eq, resolve_eq, hhead, List.append_assoc, List.singleton_append,
          foldl_followPiece_split_append, foldl_followPiece_split_append]
        rfl
    · rw [not_or] at hroot
      have hhead : (root ++ '/' :: raw).head? = root.head? := by
        cases root with
        | nil => exact absurd rfl hroot.1
        | cons => rfl
      rw [resolve_eq, resolve_eq, hhead, foldl_followPiece_split_append]

theorem PlainName.resolve {name : Str} (h : PlainName name) (cwd : List Str) :
    Path.resolve cwd name = cwd ++ [name] := by
  obtain ⟨hnil, hslash, hdot, hdots⟩ := h
  have habs : ¬ name.head? = some '/' := by
    intro hhead
    exact hslash (List.mem_of_mem_head? hhead)
  rw [resolve_eq, if_neg habs, split, List.splitOn_eq_singleton hslash, List.foldl_cons,
    List.foldl_nil, followPiece, if_neg (by simp [hnil, hdot]), nameComponent, if_neg hdots, follow]

/-- One step of `walk`. -/
def walkStep : ℕ × List Str → Component → ℕ × List Str
  | (ups, names), .normal name => (ups, names ++ [name])
  | (ups, []), .parentDir => (ups + 1, [])
  | (ups, names), .parentDir => (ups, names.dropLast)
  | walked, .rootDir | walked, .curDir => walked

/-- How many directories up components lead, and the names that they lead down from there. -/
def walk (cs : List Component) : ℕ × List Str := cs.foldl walkStep (0, [])

theorem walk_concat (cs : List Component) (c : Component) :
    walk (cs ++ [c]) = walkStep (walk cs) c :=
  List.foldl_concat ..

theorem follow_append (start : List Str) (walked : ℕ × List Str) (c : Component) :
    follow (start.rdrop walked.1 ++ walked.2) c =
      start.rdrop (walkStep walked c).1 ++ (walkStep walked c).2 := by
  obtain ⟨ups, names⟩ := walked
  cases c with
  | normal name => exact List.append_assoc _ _ _
  | parentDir =>
    cases names with
    | nil =>
      rw [List.append_nil, walkStep, List.append_nil, follow, List.rdrop, List.rdrop,
        List.dropLast_eq_take, List.take_take, List.length_take]
      congr 1
      omega
    | cons name names => exact List.dropLast_append_of_ne_nil (List.cons_ne_nil _ _)
  | rootDir | curDir => rfl

/-- What components lead to: the beginning of where they start, and their own names. -/
theorem foldl_follow_eq (start : List Str) (cs : List Component) :
    cs.foldl follow start = start.rdrop (walk cs).1 ++ (walk cs).2 := by
  induction cs using List.reverseRecOn with
  | nil => simp [walk]
  | append_singleton cs c ih =>
    rw [List.foldl_concat, ih, walk_concat]
    exact follow_append start (walk cs) c

theorem mem_of_mem_walk {cs : List Component} {name : Str} (h : name ∈ (walk cs).2) :
    Component.normal name ∈ cs := by
  induction cs using List.reverseRecOn with
  | nil => cases h
  | append_singleton cs c ih =>
    rw [walk_concat] at h
    rcases hwalk : walk cs with ⟨ups, names⟩
    rw [hwalk] at h ih
    refine List.mem_append.2 ?_
    cases c with
    | normal last =>
      refine (List.mem_append.1 h).imp ih fun hlast => ?_
      rw [List.mem_singleton.1 hlast]
      exact List.mem_singleton_self _
    | parentDir =>
      cases names with
      | nil => cases h
      | cons => exact .inl (ih (List.mem_of_mem_dropLast h))
    | rootDir | curDir => exact .inl (ih h)

theorem plainName_of_resolve_eq {cwd : List Str} {p name : Str} {names : List Str}
    (h : resolve cwd p = cwd ++ name :: names) : PlainName name := by
  suffices hname : name ∈ (walk (components p)).2 from
    plainName_of_mem_components (mem_of_mem_walk hname)
  rw [resolve, foldl_follow_eq] at h
  have hlength : ((if p.head? = some '/' then [] else cwd).rdrop
      (walk (components p)).1).length ≤ cwd.length := by
    rw [List.rdrop, List.length_take]
    split_ifs
    · exact (Nat.min_le_right _ _).trans (Nat.zero_le _)
    · exact Nat.min_le_right _ _
  have hdrop := congrArg (List.drop cwd.length) h
  rw [List.drop_left, List.drop_append, List.drop_of_length_le hlength, List.nil_append] at hdrop
  exact List.mem_of_mem_drop (hdrop ▸ List.mem_cons_self)

/-! ### The directories of a path -/

/-- The pieces of a path that a slash follows. -/
def directories (p : Str) : List Str := (split '/' p).dropLast

theorem exists_directories (p : Str) : ∃ last, '/' ∉ last ∧ (∀ d ∈ directories p, '/' ∉ d) ∧
    p = (directories p).flatMap (· ++ ['/']) ++ last := by
  obtain ⟨init, last, hsplit, hp⟩ := exists_split_eq p
  have hdirs : directories p = init := by rw [directories, hsplit, List.dropLast_concat]
  refine ⟨last, notMem_of_mem_split (s := p) (by simp [hsplit]), ?_, hdirs ▸ hp⟩
  rintro d hd
  exact notMem_of_mem_split (s := p) (by rw [hsplit, ← hdirs]; exact List.mem_append_left _ hd)

/-- A name and a slash begin a path exactly when the name is its first directory. -/
theorem prefix_iff_head_directories {w p : Str} (hw : '/' ∉ w) :
    w ++ ['/'] <+: p ↔ (directories p).head? = some w := by
  obtain ⟨last, hlast, hdirs, hp⟩ := exists_directories p
  generalize directories p = dirs at hdirs hp ⊢
  subst hp
  cases dirs with
  | nil =>
    simp only [List.flatMap_nil, List.nil_append, List.head?_nil, reduceCtorEq, iff_false]
    exact fun h => hlast (h.subset (by simp))
  | cons d dirs =>
    rw [List.flatMap_cons, List.append_assoc, List.append_assoc, List.singleton_append,
      concat_prefix_append_cons hw (hdirs d List.mem_cons_self), List.head?_cons,
      Option.some.injEq, eq_comm]

/-- A name and a slash lie in a path exactly when one of its directories ends in the name. -/
theorem infix_iff_suffix_directory {w p : Str} (hw : '/' ∉ w) :
    w ++ ['/'] <:+: p ↔ ∃ d ∈ directories p, w <:+ d := by
  obtain ⟨last, hlast, hdirs, hp⟩ := exists_directories p
  generalize directories p = dirs at hdirs hp ⊢
  subst hp
  induction dirs with
  | nil =>
    simp only [List.flatMap_nil, List.nil_append, List.not_mem_nil, false_and, exists_false,
      iff_false]
    exact fun h => hlast (h.subset (by simp))
  | cons d dirs ih =>
    have ih := ih fun e he => hdirs e (List.mem_cons_of_mem _ he)
    rw [List.flatMap_cons, List.append_assoc, List.append_assoc, List.singleton_append,
      concat_infix_append_cons hw (hdirs d List.mem_cons_self), ih]
    simp

/-- A name lies between two slashes, one put before the path, exactly when it is one of its
directories. -/
theorem infix_iff_mem_directories {w p : Str} (hw : '/' ∉ w) :
    '/' :: (w ++ ['/']) <:+: '/' :: p ↔ w ∈ directories p := by
  obtain ⟨last, hlast, hdirs, hp⟩ := exists_directories p
  generalize directories p = dirs at hdirs hp ⊢
  subst hp
  induction dirs with
  | nil =>
    have hpre : ¬ w ++ ['/'] <+: last := fun h => hlast (h.subset (by simp))
    have hin : ¬ '/' :: (w ++ ['/']) <:+: last := fun h => hlast (h.subset (by simp))
    simp [List.infix_cons_iff, hpre, hin]
  | cons d dirs ih =>
    have hd := hdirs d List.mem_cons_self
    -- `d` holds no slash, so the first slash is the one behind it
    have hrest : '/' :: (w ++ ['/']) <:+: d ++ '/' :: (dirs.flatMap (· ++ ['/']) ++ last) ↔
        '/' :: (w ++ ['/']) <:+: '/' :: (dirs.flatMap (· ++ ['/']) ++ last) :=
      ⟨infix_of_infix_append hd, fun h => h.trans (List.suffix_append _ _).isInfix⟩
    rw [List.flatMap_cons, List.append_assoc, List.append_assoc, List.singleton_append,
      List.infix_cons_iff, List.cons_prefix_cons, hrest,
      ih fun e he => hdirs e (List.mem_cons_of_mem _ he), concat_prefix_append_cons hw hd, List.mem_cons]
    simp

end Path

end Rust

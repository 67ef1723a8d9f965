import SdkBindings.Files.Tree
import SdkBindings.Proofs.Outcome

/-!
# What an operation on files leaves alone

A location is untouched between two trees if what is there stays as it is and no file appears there
(`Tree.Untouched`); a missing directory may be made.  An operation spares a set of locations if all of
them are untouched whatever tree it starts with (`Tree.Spares`).  Looking, reading and making
directories spare every location, and writing spares those its path does not lead to.

Which location a path leads to depends on the tree, but how its last name ends does not
(`endsIn_of_locate_child`), so operations on files of one kind spare the files of every other kind.

Writing a text that fails may spoil the one location that its path leads to: what is there then is a
beginning of the text (`writeText_error`).
-/

namespace SdkBindings

/-! ## The last name of a written path -/

namespace Text

/-- The last part of a text ends as the text does, if its end does not hold the separator. -/
theorem getLast?_splitAt_append {separator : Char} (text : List Char) {ending : List Char}
    (h : separator ∉ ending) :
    ∃ part, (splitAt separator (text ++ ending)).getLast? = some (part ++ ending) := by
  obtain ⟨initial, last, first, rest, -, hending, hall⟩ := exists_splitAt_append separator text ending
  rw [splitAt_of_not_mem h] at hending
  cases hending
  exact ⟨last, by rw [hall, List.getLast?_concat]⟩

/-- The bytes of an encoded text are its own. -/
theorem eq_bytes_of_encode [Host] {text : String} {encoded : List UInt8}
    (h : encode text = .ok encoded) : encoded = bytes text := by
  unfold encode at h
  split at h <;> cases h
  rfl

/-- A host that refuses nothing encodes every text. -/
theorem encode_unlimited (text : String) : encode text = .ok (bytes text) := by
  have hstray (position : Nat) (cs : List Char) : strayFrom position cs = none := by
    induction cs generalizing position with
    | nil => rfl
    | cons c rest ih => exact ih (position + 1)
  unfold encode
  rw [hstray]

/-- Reading the bytes of an array one by one gives some, if there are any left or some were read. -/
theorem toList_loop_ne_nil (bs : ByteArray) (i : Nat) (read : List UInt8)
    (h : read ≠ [] ∨ i < bs.size) : ByteArray.toList.loop bs i read ≠ [] := by
  fun_induction ByteArray.toList.loop bs i read with
  | case1 i read hi ih => exact ih (.inl (by simp))
  | case2 i read hi => simpa [hi] using h

/-- A text that is not empty has bytes. -/
theorem bytes_ne_nil {text : String} (h : text ≠ "") : bytes text ≠ [] := by
  refine toList_loop_ne_nil _ 0 [] (.inr ?_)
  show 0 < text.utf8ByteSize
  rw [Nat.pos_iff_ne_zero]
  simpa using h

end Text

/-- A text can end a name: it holds no slash, has at least two characters, and the last one is no
point. -/
structure IsEnding (ending : String) : Prop where
  /-- It holds no slash. -/
  noSlash : '/' ∉ ending.toList
  /-- It has at least two characters. -/
  long : 2 ≤ ending.toList.length
  /-- The last one is no point. -/
  noPoint : ending.toList.getLast? ≠ some '.'

/-- The name ends in a text. -/
def NameEndsIn (ending name : String) : Prop :=
  ending.toList <:+ name.toList

/-- The last character of a name is that of its ending. -/
theorem NameEndsIn.getLast?_eq {ending name : String} (h : NameEndsIn ending name)
    (hending : IsEnding ending) : name.toList.getLast? = ending.toList.getLast? := by
  obtain ⟨first, hname⟩ := h
  rw [← hname, List.getLast?_append]
  cases hlast : ending.toList.getLast? with
  | some c => rfl
  | none =>
    rw [List.getLast?_eq_none_iff] at hlast
    have hlong := hending.long
    rw [hlast] at hlong
    cases hlong

/-- The last name of a written path ends as the path does. -/
theorem Path.names_ofString_append (text : String) {ending : String} (h : IsEnding ending) :
    ∃ first name, (Path.ofString (text ++ ending)).names = first ++ [name] ∧
      NameEndsIn ending name := by
  obtain ⟨part, hlast⟩ := Text.getLast?_splitAt_append text.toList h.noSlash
  obtain ⟨first, hparts⟩ := List.getLast?_eq_some_iff.mp hlast
  have hname : Path.isName (part ++ ending.toList) = true := by
    have hlong : 2 ≤ (part ++ ending.toList).length := by
      rw [List.length_append]
      have := h.long
      omega
    rw [Path.isName, Bool.and_eq_true, decide_eq_true_eq, decide_eq_true_eq]
    constructor <;> intro he <;> rw [he] at hlong <;> simp at hlong
  refine ⟨(first.filter Path.isName).map String.ofList, String.ofList (part ++ ending.toList), ?_, ?_⟩
  · rw [Path.ofString, String.toList_append, hparts, List.filter_append, List.filter_cons_of_pos hname]
    simp
  · rw [NameEndsIn, String.toList_ofList]
    exact List.suffix_append part ending.toList

/-- The last name of a path that is continued by a written one ends as the written one does. -/
theorem Path.names_child_append (base : Path) (text : String) {ending : String}
    (h : IsEnding ending) :
    ∃ first name, (base.child (text ++ ending)).names = first ++ [name] ∧ NameEndsIn ending name := by
  obtain ⟨first, name, hnames, hname⟩ := Path.names_ofString_append text h
  unfold Path.child Path.join
  split
  · exact ⟨base.names ++ first, name, by rw [hnames, List.append_assoc], hname⟩
  · exact ⟨first, name, hnames, hname⟩

namespace Tree

/-! ## Where a path leads -/

/-- The name at a location ends in a text. -/
def EndsIn (ending : String) (location : Location) : Prop :=
  ∃ name, location.head? = some name ∧ NameEndsIn ending name

/-- Names lead to a location that is called by the last of them, unless that leads back. -/
theorem head?_of_follow {t : Tree} {location target : Location} {first : List String}
    {name : String} (hname : name ≠ "..") (h : t.follow location (first ++ [name]) = .ok target) :
    target.head? = some name := by
  induction first generalizing location with
  | nil =>
    rw [List.nil_append, follow] at h
    split at h
    · cases h
    · cases h
    · cases h
    · split at h
      · cases h
      · rw [follow, enter, if_neg hname] at h
        cases h
        rfl
  | cons other first ih =>
    rw [List.cons_append, follow] at h
    split at h
    · cases h
    · cases h
    · cases h
    · split at h
      · cases h
      · exact ih h

/-- A written path leads to a location whose name ends as the path does. -/
theorem endsIn_of_locate_child {t : Tree} {base : Path} {text ending : String}
    (hending : IsEnding ending) {location : Location}
    (h : t.locate (base.child (text ++ ending)) = .ok location) : EndsIn ending location := by
  obtain ⟨first, name, hnames, hname⟩ := Path.names_child_append base text hending
  have hup : name ≠ ".." := by
    rintro rfl
    exact hending.noPoint (hname.getLast?_eq hending).symm
  unfold locate at h
  split at h
  · cases h
  split at h
  · cases h
  · rw [hnames] at h
    exact ⟨name, head?_of_follow hup h, hname⟩

/-- Putting a file where no directory is does not change where names lead. -/
theorem follow_put {t : Tree} {location : Location} (content : List UInt8)
    (h : t.node? location ≠ some .directory) {start target : Location} {names : List String}
    (hfollow : t.follow start names = .ok target) :
    (t.put location (.file content)).follow start names = .ok target := by
  induction names generalizing start with
  | nil => exact hfollow
  | cons name rest ih =>
    rw [follow] at hfollow ⊢
    split at hfollow
    · cases hfollow
    · cases hfollow
    · cases hfollow
    · rename_i hdirectory
      have hne : start ≠ location := by
        rintro rfl
        exact h hdirectory
      rw [node?_put_of_ne hne, hdirectory]
      dsimp only
      split at hfollow
      · cases hfollow
      · rename_i hshort
        rw [if_neg hshort]
        exact ih hfollow

/-- Putting a file where no directory is does not change where a path leads. -/
theorem locate_put {t : Tree} {location : Location} (content : List UInt8)
    (h : t.node? location ≠ some .directory) {path : Path} {target : Location}
    (hlocate : t.locate path = .ok target) :
    (t.put location (.file content)).locate path = .ok target := by
  unfold locate at hlocate ⊢
  split at hlocate
  · cases hlocate
  · rename_i hnull
    rw [if_neg hnull]
    split at hlocate
    · cases hlocate
    · rename_i hshort
      rw [if_neg hshort]
      exact follow_put content h hlocate

/-- A location whose name ends in one way does not end in another one. -/
theorem not_endsIn {ending other : String} {location : Location} (h : EndsIn ending location)
    (hending : IsEnding ending) (hother : IsEnding other)
    (hne : ending.toList.getLast? ≠ other.toList.getLast?) : ¬ EndsIn other location := by
  rintro ⟨name', hhead', hname'⟩
  obtain ⟨name, hhead, hname⟩ := h
  rw [hhead] at hhead'
  obtain rfl := Option.some.inj hhead'
  exact hne ((hname.getLast?_eq hending).symm.trans (hname'.getLast?_eq hother))

/-! ## Untouched locations -/

/-- What is at a location stays as it is, and no file appears there. -/
structure Untouched (location : Location) (t t' : Tree) : Prop where
  /-- What is there stays as it is. -/
  kept : ∀ node, t.node? location = some node → t'.node? location = some node
  /-- A file that is there was there before. -/
  old : ∀ content, t'.node? location = some (.file content) →
    t.node? location = some (.file content)

theorem Untouched.refl (location : Location) (t : Tree) : Untouched location t t :=
  ⟨fun _ => id, fun _ => id⟩

theorem Untouched.trans {location : Location} {t t' t'' : Tree} (h : Untouched location t t')
    (h' : Untouched location t' t'') : Untouched location t t'' :=
  ⟨fun node hnode => h'.kept node (h.kept node hnode),
    fun content hfile => h.old content (h'.old content hfile)⟩

/-- Putting something elsewhere leaves a location untouched. -/
theorem untouched_put_of_ne {location other : Location} {t : Tree} {node : Node}
    (h : other ≠ location) : Untouched other t (t.put location node) := by
  constructor <;> intro _ hnode
  · rwa [node?_put_of_ne h]
  · rwa [node?_put_of_ne h] at hnode

/-- Making a missing directory leaves every location untouched. -/
theorem untouched_put_directory {location : Location} {t : Tree} (h : t.node? location = none)
    (other : Location) : Untouched other t (t.put location .directory) := by
  by_cases hother : other = location
  · subst hother
    have hroot : other ≠ [] := by
      rintro rfl
      cases h
    constructor <;> intro _ hnode
    · rw [h] at hnode
      cases hnode
    · rw [node?_put_self hroot] at hnode
      cases hnode
  · exact untouched_put_of_ne hother

/-! ## Operations that spare locations -/

variable {α β : Type} {P : Location → Prop}

/-- The operation leaves the locations untouched. -/
def Spares (P : Location → Prop) (m : StateM Tree α) : Prop :=
  ∀ t location, P location → Untouched location t (m t).2

/-- An operation after an operation starts with the tree that the first one leaves. -/
theorem bind_apply (m : StateM Tree α) (k : α → StateM Tree β) (t : Tree) :
    (m >>= k) t = k (m t).1 (m t).2 := rfl

theorem Spares.pure (a : α) : Spares P (Pure.pure a : StateM Tree α) :=
  fun t location _ => .refl location t

theorem Spares.bind {m : StateM Tree α} {k : α → StateM Tree β} (hm : Spares P m)
    (hk : ∀ a, Spares P (k a)) : Spares P (m >>= k) :=
  fun t location h => (hm t location h).trans (hk (m t).1 (m t).2 location h)

theorem Spares.map {m : StateM Tree α} (f : α → β) (hm : Spares P m) : Spares P (f <$> m) :=
  fun t location h => hm t location h

/-- An operation that sets a tree spares locations if the tree it sets does. -/
theorem spares_commit {change : Tree → Except FileFault Tree}
    (h : ∀ t t', change t = .ok t' → ∀ location, P location → Untouched location t t') :
    Spares P (commit change) := by
  intro t location hlocation
  unfold commit
  split
  · rename_i t' hchange
    exact h t t' hchange location hlocation
  · exact .refl location t

theorem spares_kind (path : Path) : Spares P (access.kind path) :=
  fun t location _ => .refl location t

theorem spares_create {path : Path}
    (h : ∀ (t : Tree) location, t.locate path = .ok location → ¬ P location) :
    Spares P (access.create path) := by
  refine spares_commit fun t t' hcreate other hother => ?_
  obtain ⟨location, hlocate, hcreate⟩ := bind_eq_ok hcreate
  have hne : other ≠ location := by
    rintro rfl
    exact h t other hlocate hother
  split at hcreate <;> cases hcreate
  · exact .refl other t
  all_goals exact untouched_put_of_ne hne

/-- What is added to the bytes of a file is a beginning of what was to be added. -/
theorem exists_extend (t : Tree) (location : Location) (content bytes : List UInt8) :
    ∃ n, (t.extend location content bytes).2 =
      t.put location (.file (content ++ bytes.take n)) := by
  unfold extend
  cases t.capacity location with
  | none => exact ⟨bytes.length, by simp⟩
  | some room => exact ⟨room - content.length, rfl⟩

theorem spares_append {path : Path} (bytes : List UInt8)
    (h : ∀ (t : Tree) location, t.locate path = .ok location → ¬ P location) :
    Spares P (access.append path bytes) := by
  intro t other hother
  show Untouched other t (t.append path bytes).2
  unfold append
  split
  · exact .refl other t
  · rename_i location hlocate
    have hne : other ≠ location := by
      rintro rfl
      exact h t other hlocate hother
    have hextend (content : List UInt8) : Untouched other t (t.extend location content bytes).2 := by
      obtain ⟨n, hput⟩ := t.exists_extend location content bytes
      rw [hput]
      exact untouched_put_of_ne hne
    split
    · exact .refl other t
    · exact .refl other t
    · exact hextend _
    · exact hextend _

/-- Adding bytes to a file does not change where a path leads. -/
theorem locate_append {t : Tree} {path other : Path} {target : Location} (bytes : List UInt8)
    (h : t.locate path = .ok target) : (t.append other bytes).2.locate path = .ok target := by
  unfold append
  split
  · exact h
  · rename_i location _
    have hextend (content : List UInt8) (hnode : t.node? location ≠ some .directory) :
        (t.extend location content bytes).2.locate path = .ok target := by
      obtain ⟨n, hput⟩ := t.exists_extend location content bytes
      rw [hput]
      exact locate_put _ hnode h
    split
    · exact h
    · exact h
    · rename_i content hfile
      exact hextend content (by rw [hfile]; simp)
    · rename_i hnone
      exact hextend [] (by rw [hnone]; simp)

theorem spares_writeText [Host] {path : Path} (text : String)
    (h : ∀ (t : Tree) location, t.locate path = .ok location → ¬ P location) :
    Spares P (access.writeText path text) := by
  refine (spares_create h).bind fun created => ?_
  split
  · exact .pure _
  · split
    · exact .pure _
    · exact (spares_append _ h).bind fun _ => .pure _

/-- Making a directory spares every location. -/
theorem spares_makeDirectory (path : Path) : Spares P (access.makeDirectory path) := by
  refine spares_commit fun t t' h other _ => ?_
  obtain ⟨location, hlocate, h⟩ := bind_eq_ok h
  split at h
  · cases h
  · rename_i hnone
    cases h
    exact untouched_put_directory hnone other

/-! ### Looking and making directories -/

theorem spares_find (path : Path) : Spares P (access.find path) := by
  refine (spares_kind path).bind fun found => ?_
  split
  · exact .pure _
  · exact .pure _

theorem spares_holds (kind : FileKind) (path : Path) : Spares P (access.holds kind path) :=
  (spares_find path).bind fun _ => .pure _

theorem spares_excuse (fault : FileFault) (path : Path) : Spares P (access.excuse fault path) := by
  unfold FileAccess.excuse
  split
  · exact .pure _
  · refine (spares_holds _ path).bind fun held => ?_
    split <;> exact .pure _

theorem spares_ensureDirectory (path : Path) : Spares P (access.ensureDirectory path) := by
  refine (spares_makeDirectory path).bind fun made => ?_
  split
  · exact .pure _
  · exact .pure _
  · exact spares_excuse _ path

theorem spares_ensureAll (anchor : Anchor) (names : List String) :
    Spares P (access.ensureAll anchor names) := by
  induction names with
  | nil => exact spares_ensureDirectory _
  | cons name above ih =>
    refine (spares_makeDirectory _).bind fun made => ?_
    split
    · exact .pure _
    · refine ih.bind fun reached => ?_
      split
      · exact spares_ensureDirectory _
      · exact .pure _
    · exact spares_excuse _ _

theorem spares_ensureDirectories (path : Path) : Spares P (access.ensureDirectories path) :=
  spares_ensureAll path.anchor path.names.reverse

/-! ### Writing that fails -/

/-- A path leads to a location with a file, and everything else is as it was in another tree. -/
structure Holds (path : Path) (location : Location) (content : List UInt8) (t t' : Tree) : Prop where
  /-- The path leads there. -/
  leads : t'.locate path = .ok location
  /-- The file is there. -/
  file : t'.node? location = some (.file content)
  /-- Everything else is untouched. -/
  others : ∀ other, other ≠ location → Untouched other t t'

/-- Putting a file where a path leads, and where no directory is. -/
theorem holds_put {t : Tree} {path : Path} {location : Location} (content : List UInt8)
    (hnode : t.node? location ≠ some .directory) (hlocate : t.locate path = .ok location) :
    Holds path location content t (t.put location (.file content)) := by
  have hroot : location ≠ [] := by
    rintro rfl
    exact hnode rfl
  exact ⟨locate_put content hnode hlocate, node?_put_self hroot, fun _ => untouched_put_of_ne⟩

/-- A file that was made or emptied is empty, unless it is a device that keeps nothing. -/
theorem create_eq {path : Path} {t t' : Tree} (h : t.create path = .ok t') :
    (t' = t ∧ ∀ bytes, t.append path bytes = (.ok (), t)) ∨
      ∃ location, Holds path location [] t t' := by
  obtain ⟨location, hlocate, h⟩ := bind_eq_ok h
  split at h <;> cases h
  · rename_i hsink
    refine .inl ⟨rfl, fun bytes => ?_⟩
    unfold append
    rw [hlocate]
    dsimp only
    rw [hsink]
  · rename_i content hfile
    exact .inr ⟨location, holds_put [] (by rw [hfile]; simp) hlocate⟩
  · rename_i hnone
    exact .inr ⟨location, holds_put [] (by rw [hnone]; simp) hlocate⟩

/-- Of what is added to an empty file, a beginning is there afterwards. -/
theorem Holds.append {path : Path} {location : Location} {t t' : Tree}
    (h : Holds path location [] t t') (bytes : List UInt8) :
    ∃ n, Holds path location (bytes.take n) t (t'.append path bytes).2 := by
  obtain ⟨n, hextend⟩ := t'.exists_extend location [] bytes
  have happend : t'.append path bytes = t'.extend location [] bytes := by
    unfold Tree.append
    rw [h.leads]
    dsimp only
    rw [h.file]
  have hput := holds_put (bytes.take n) (by rw [h.file]; simp) h.leads
  rw [happend, hextend, List.nil_append]
  exact ⟨n, hput.leads, hput.file, fun other hother =>
    (h.others other hother).trans (hput.others other hother)⟩

/-- A writing that fails leaves everything untouched, or a beginning of the text in the file that its
path leads to. -/
theorem writeText_error [Host] {path : Path} {text : String} {fault : WriteFault} {t t' : Tree}
    (h : access.writeText path text t = (.error fault, t')) :
    (∀ location, Untouched location t t') ∨
      (∀ f, fault ≠ .creation f) ∧
        ∃ location n, Holds path location ((Text.bytes text).take n) t t' := by
  unfold FileAccess.writeText at h
  rw [bind_apply] at h
  rcases hcreate : t.create path with f | t₁
  · have hmade : access.create path t = (.error f, t) := by
      show commit (·.create path) t = _
      rw [commit, hcreate]
    rw [hmade] at h
    cases h
    exact .inl fun location => .refl location t
  have hmade : access.create path t = (.ok (), t₁) := by
    show commit (·.create path) t = _
    rw [commit, hcreate]
  rw [hmade] at h
  dsimp only at h
  rcases hencode : Text.encode text with stray | bytes <;> rw [hencode] at h
  · -- the text cannot be encoded, and the file is empty
    cases h
    obtain ⟨rfl, -⟩ | ⟨location, hholds⟩ := create_eq hcreate
    · exact .inl fun location => .refl location _
    · exact .inr ⟨fun f => nofun, location, 0, by simpa using hholds⟩
  · change (((t₁.append path bytes).1.mapError WriteFault.device), (t₁.append path bytes).2) =
      (.error fault, t') at h
    obtain ⟨rfl, hsink⟩ | ⟨location, hholds⟩ := create_eq hcreate
    · rw [hsink] at h
      cases h
    · obtain ⟨n, hbegun⟩ := hholds.append bytes
      rw [Text.eq_bytes_of_encode hencode] at hbegun h
      obtain ⟨hresult, rfl⟩ := Prod.mk.injEq .. ▸ h
      refine .inr ⟨?_, location, n, hbegun⟩
      cases hadded : (t₁.append path (Text.bytes text)).1 <;> rw [hadded] at hresult <;> cases hresult
      exact fun f => nofun

/-- A text of which nothing has room leaves an empty file. -/
theorem writeText_noRoom {t : Tree} {path : Path} {location : Location} {content : List UInt8}
    {text : String} (hlocate : t.locate path = .ok location)
    (hfile : t.node? location = some (.file content)) (hcapacity : t.capacity location = some 0)
    (htext : text ≠ "") :
    ∃ t', access.writeText path text t = (.error (.device noSpace), t') ∧
      t'.node? location = some (.file []) := by
  have hnode : t.node? location ≠ some .directory := by
    rw [hfile]
    simp
  have hroot : location ≠ [] := by
    rintro rfl
    exact hnode rfl
  have hcreate : access.create path t = (.ok (), t.put location (.file [])) := by
    show commit (·.create path) t = _
    simp [commit, create, hlocate, hfile, bind, Except.bind]
  have hempty : (t.put location (.file [])).node? location = some (.file []) := node?_put_self hroot
  have happend : (t.put location (.file [])).append path (Text.bytes text) =
      (.error noSpace, (t.put location (.file [])).put location (.file [])) := by
    unfold append
    rw [locate_put [] hnode hlocate]
    dsimp only
    rw [hempty]
    have hroom : (t.put location (.file [])).capacity location = some 0 := hcapacity
    simp [extend, hroom, Ne.symm (Text.bytes_ne_nil htext)]
  refine ⟨(t.put location (.file [])).put location (.file []), ?_, node?_put_self hroot⟩
  unfold FileAccess.writeText
  rw [bind_apply, hcreate]
  dsimp only
  rw [Text.encode_unlimited]
  show (((t.put location (.file [])).append path (Text.bytes text)).1.mapError WriteFault.device,
    ((t.put location (.file [])).append path (Text.bytes text)).2) = _
  rw [happend]
  rfl

end Tree

end SdkBindings

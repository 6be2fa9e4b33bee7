import Trellis.FileTree.Change

/-!
# What changes of a file tree keep

Times aside, a change of a tree touches one place.  Making directories touches no file at all (`makeDirectories_file?`),
and writing a file touches the place that the path leads to (`write_effect`).  The path still leads there afterwards.
For this the walk along a path is described by the relation `Leads`:  a link that the walk has left is not where it ends
(`Leads.ne_link`), so it meets the place at its end only, and a file that appears there does not stop it
(`Leads.of_file`).
-/

namespace Trellis

/-- The entry without its time. -/
def Entry.timeless : Entry → Entry
  | .directory _ => .directory 0
  | .file bytes _ => .file bytes 0
  | .link target => .link target

def Entry.bytes? : Entry → Option Bytes
  | .file bytes _ => some bytes
  | _ => none

theorem Entry.bytes?_timeless (e : Entry) : e.timeless.bytes? = e.bytes? := by
  cases e <;> rfl

/-- Dropping the entries of one key leaves the others. -/
theorem lookup_filter_ne {α β : Type} [DecidableEq α] [BEq α] [LawfulBEq α] {a b : α} (entries : List (α × β))
    (h : b ≠ a) : (entries.filter fun x => x.1 ≠ a).lookup b = entries.lookup b := by
  induction entries with
  | nil => rfl
  | cons x xs ih =>
    obtain ⟨key, value⟩ := x
    by_cases hkey : key = a
    · subst hkey
      have hbeq : (b == key) = false := beq_eq_false_iff_ne.mpr h
      rw [List.filter_cons_of_neg (by simp), ih, List.lookup_cons, hbeq]
    · rw [List.filter_cons_of_pos (by simpa using hkey), List.lookup_cons, List.lookup_cons, ih]

namespace FileTree

/-- What stands at a place, its time aside. -/
def content? (t : FileTree) (place : Place) : Option Entry := (t.entry? place).map Entry.timeless

/-- The bytes of the file that stands at a place. -/
def file? (t : FileTree) (place : Place) : Option Bytes := (t.entry? place).bind Entry.bytes?

variable {t t' : FileTree} {place q : Place}

theorem entry?_root (t : FileTree) : t.entry? [] = some (.directory 0) := rfl

theorem ne_root_of_content? (h : t.content? place ≠ some (.directory 0)) : place ≠ [] := by
  rintro rfl
  exact h rfl

theorem file?_eq_content? (t : FileTree) (q : Place) : t.file? q = (t.content? q).bind Entry.bytes? := by
  unfold file? content?
  cases t.entry? q with
  | none => rfl
  | some e => exact e.bytes?_timeless.symm

theorem file?_of_content? (h : t'.content? q = t.content? q) : t'.file? q = t.file? q := by
  rw [file?_eq_content?, file?_eq_content?, h]

/-! ### One entry -/

theorem entry?_put_self (t : FileTree) (h : place ≠ []) (e : Entry) : entry? (t.put place e) place = some e := by
  unfold entry? put
  simp [h]

theorem entry?_put_of_ne (t : FileTree) (h : q ≠ place) (e : Entry) : entry? (t.put place e) q = t.entry? q := by
  have hbeq : (q == place) = false := beq_eq_false_iff_ne.mpr h
  unfold entry? put
  rw [List.lookup_cons, hbeq, ← lookup_filter_ne t.entries h]

theorem content?_put_of_ne (t : FileTree) (h : q ≠ place) (e : Entry) :
    (t.put place e).content? q = t.content? q := by
  unfold content?
  rw [entry?_put_of_ne t h]

theorem content?_put_self (t : FileTree) (h : place ≠ []) (e : Entry) :
    (t.put place e).content? place = some e.timeless := by
  unfold content?
  rw [entry?_put_self t h]
  rfl

/-- A new time for a directory changes nothing but times. -/
theorem content?_stamp (t : FileTree) (place : Place) : (t.stamp place).content? = t.content? := by
  funext q
  unfold stamp
  split
  · next time hentry =>
    split
    · rfl
    · next hroot =>
      by_cases hq : q = place
      · subst hq
        rw [content?_put_self t (by simpa using hroot), content?, hentry]
        rfl
      · exact content?_put_of_ne t hq _
  · rfl

theorem content?_create_of_ne (t : FileTree) (h : q ≠ place) (e : Entry) :
    (t.create place e).content? q = t.content? q := by
  unfold create
  rw [content?_stamp, content?_put_of_ne t h]

theorem content?_create_self (t : FileTree) (h : place ≠ []) (e : Entry) :
    (t.create place e).content? place = some e.timeless := by
  unfold create
  rw [content?_stamp, content?_put_self t h]

theorem home_stamp (t : FileTree) (place : Place) : (t.stamp place).home = t.home := by
  unfold stamp
  split
  · split <;> rfl
  · rfl

theorem home_create (t : FileTree) (place : Place) (e : Entry) : (t.create place e).home = t.home :=
  home_stamp (t.put place e) place.dropLast

/-! ### Directories -/

theorem makeDirectory_effect {p : Path} (h : t.makeDirectory p = .ok t') :
    ∃ place, place ≠ [] ∧ t.entry? place = none ∧ t' = t.create place (.directory t.clock) := by
  unfold makeDirectory at h
  split at h
  · cases h
  · cases h
  · next name _ _ =>
    split at h
    · next parent _ _ =>
      split at h
      · cases h
      · next hfree =>
        split at h
        · cases h
        · rw [Bool.or_eq_true, not_or] at hfree
          have hnone : t.entry? (parent ++ [name]) = none := by simpa using hfree.2
          exact ⟨parent ++ [name], by simp, hnone, (Except.ok.inj h).symm⟩
    · cases h
    · cases h
    · cases h

theorem makeDirectory_file? {p : Path} (h : t.makeDirectory p = .ok t') (q : Place) : t'.file? q = t.file? q := by
  obtain ⟨place, hroot, hfree, rfl⟩ := makeDirectory_effect h
  by_cases hq : q = place
  · subst hq
    rw [file?_eq_content?, content?_create_self t hroot, file?, hfree]
    rfl
  · exact file?_of_content? (content?_create_of_ne t hq _)

/-- Making directories leaves every file as it is, whether it succeeds or not. -/
theorem makeDirectories_file? (t : FileTree) (p : Path) (q : Place) : (t.makeDirectories p).1.file? q = t.file? q := by
  fun_induction makeDirectories t p with
  | case1 p made hmade => exact makeDirectory_file? hmade q
  | case2 p cause hcause hmissing hpos above fault habove ih =>
    rw [habove] at ih
    exact ih
  | case3 p cause hcause hmissing hpos above habove made hmade ih =>
    rw [habove] at ih
    exact (makeDirectory_file? hmade q).trans ih
  | case4 p settle cause hcause hmissing hpos above habove cause' hcause' ih =>
    rw [habove] at ih
    have hsettle : (settle above cause').1 = above := by
      dsimp only [settle]
      split <;> rfl
    rw [hsettle]
    exact ih
  | case5 p settle cause hcause hfound =>
    have hsettle : (settle t cause).1 = t := by
      dsimp only [settle]
      split <;> rfl
    rw [hsettle]

/-! ### Walking -/

theorem content?_eq_none_iff : t.content? q = none ↔ t.entry? q = none := Option.map_eq_none_iff

theorem content?_eq_directory_iff :
    t.content? q = some (.directory 0) ↔ ∃ time, t.entry? q = some (.directory time) := by
  unfold content?
  cases t.entry? q with
  | none => simp
  | some e => cases e <;> simp [Entry.timeless]

theorem content?_eq_file_iff {bytes : Bytes} :
    t.content? q = some (.file bytes 0) ↔ ∃ time, t.entry? q = some (.file bytes time) := by
  unfold content?
  cases t.entry? q with
  | none => simp
  | some e => cases e <;> simp [Entry.timeless]

theorem content?_eq_link_iff {target : Path} :
    t.content? q = some (.link target) ↔ t.entry? q = some (.link target) := by
  unfold content?
  cases t.entry? q with
  | none => simp
  | some e => cases e <;> simp [Entry.timeless]

/-- Only a file can stand here, and maybe none does. -/
def FileOrNone (e : Option Entry) : Prop := e = none ∨ ∃ bytes, e = some (.file bytes 0)

/-- The components lead from a directory to a place, through at most `links` links. -/
inductive Leads (t : FileTree) : Nat → Place → List Name → Place → Prop
  | stay (links : Nat) (here : Place) : Leads t links here [] here
  | up {links : Nat} {here place : Place} {rest : List Name} (h : Leads t links here.dropLast rest place) :
    Leads t links here (upward :: rest) place
  | last {links : Nat} {here : Place} {part : Name} (hname : part ≠ upward ∧ ¬ isLongName part = true)
    (hend : FileOrNone (t.content? (here ++ [part]))) : Leads t links here [part] (here ++ [part])
  | down {links : Nat} {here place : Place} {part : Name} {rest : List Name}
    (hname : part ≠ upward ∧ ¬ isLongName part = true)
    (hdirectory : t.content? (here ++ [part]) = some (.directory 0)) (h : Leads t links (here ++ [part]) rest place) :
    Leads t links here (part :: rest) place
  | follow {links : Nat} {here place : Place} {part : Name} {rest : List Name} {target : Path}
    (hname : part ≠ upward ∧ ¬ isLongName part = true)
    (hlink : t.content? (here ++ [part]) = some (.link target))
    (h : Leads t links (if target.isAbsolute then [] else here) (target.parts ++ rest) place) :
    Leads t (links + 1) here (part :: rest) place

section Walk

variable {links : Nat} {here : Place} {part : Name} {rest : List Name}

theorem walk_nil (t : FileTree) (links : Nat) (here : Place) : t.walk true links here [] = .ok here := by
  cases links <;> rfl

theorem walk_up (t : FileTree) (links : Nat) (here : Place) (rest : List Name) :
    t.walk true links here (upward :: rest) = t.walk true links here.dropLast rest := by
  cases links <;> rw [walk, walkOn, if_pos rfl]

theorem walk_long (hup : part ≠ upward) (hlong : isLongName part = true) (t : FileTree) (links : Nat) (here : Place)
    (rest : List Name) : t.walk true links here (part :: rest) = .error .tooLong := by
  cases links <;> rw [walk, walkOn, if_neg hup, if_pos hlong]

variable (hname : part ≠ upward ∧ ¬ isLongName part = true)

include hname

theorem walk_directory {time : Nat} (hentry : t.entry? (here ++ [part]) = some (.directory time)) (links : Nat) :
    t.walk true links here (part :: rest) = t.walk true links (here ++ [part]) rest := by
  cases links <;> rw [walk, walkOn, if_neg hname.1, if_neg hname.2, hentry]

theorem walk_link {target : Path} (hentry : t.entry? (here ++ [part]) = some (.link target)) (links : Nat) :
    t.walk true (links + 1) here (part :: rest) =
      t.walk true links (if target.isAbsolute then [] else here) (target.parts ++ rest) := by
  rw [walk, walkOn, if_neg hname.1, if_neg hname.2, hentry]
  simp only [Bool.not_true, Bool.and_false, Bool.false_eq_true, if_false]

theorem walk_link_zero {target : Path} (hentry : t.entry? (here ++ [part]) = some (.link target)) :
    t.walk true 0 here (part :: rest) = .error .tooManyLinks := by
  rw [walk, walkOn, if_neg hname.1, if_neg hname.2, hentry]
  simp only [Bool.not_true, Bool.and_false, Bool.false_eq_true, if_false]

theorem walk_last (hend : FileOrNone (t.content? (here ++ [part]))) (links : Nat) :
    t.walk true links here [part] = .ok (here ++ [part]) := by
  obtain hnone | ⟨bytes, hfile⟩ := hend
  · cases links <;>
      simp only [walk, walkOn, if_neg hname.1, if_neg hname.2, content?_eq_none_iff.mp hnone, List.isEmpty_nil, if_true]
  · obtain ⟨time, hentry⟩ := content?_eq_file_iff.mp hfile
    cases links <;>
      simp only [walk, walkOn, if_neg hname.1, if_neg hname.2, hentry, List.isEmpty_nil, if_true]

theorem walk_blocked (hrest : rest ≠ []) (hend : FileOrNone (t.content? (here ++ [part]))) (links : Nat) :
    t.walk true links here (part :: rest) ≠ .ok place := by
  have hempty : rest.isEmpty = false := by simpa using hrest
  obtain hnone | ⟨bytes, hfile⟩ := hend
  · cases links <;>
      simp [walk, walkOn, if_neg hname.1, if_neg hname.2, content?_eq_none_iff.mp hnone, hempty]
  · obtain ⟨time, hentry⟩ := content?_eq_file_iff.mp hfile
    cases links <;> simp [walk, walkOn, if_neg hname.1, if_neg hname.2, hentry, hempty]

end Walk

/-- A walk is a way that leads somewhere, if the walks behind a link are. -/
theorem leads_of_walk_behind {links : Nat} {here : Place} {parts : List Name}
    (hbehind : ∀ n, links = n + 1 → ∀ here parts, t.walk true n here parts = .ok place → t.Leads n here parts place)
    (h : t.walk true links here parts = .ok place) : t.Leads links here parts place := by
  induction parts generalizing here with
  | nil =>
    rw [walk_nil] at h
    obtain rfl := Except.ok.inj h
    exact .stay links here
  | cons part rest ih =>
    by_cases hup : part = upward
    · subst hup
      rw [walk_up] at h
      exact .up (ih h)
    by_cases hlong : isLongName part = true
    · rw [walk_long hup hlong] at h
      cases h
    have hname : part ≠ upward ∧ ¬ isLongName part = true := ⟨hup, hlong⟩
    -- only the last component may lead to a file, or to nothing
    have hends : FileOrNone (t.content? (here ++ [part])) → t.Leads links here (part :: rest) place := by
      intro hend
      by_cases hrest : rest = []
      · subst hrest
        rw [walk_last hname hend] at h
        obtain rfl := Except.ok.inj h
        exact .last hname hend
      · exact absurd h (walk_blocked hname hrest hend links)
    cases hentry : t.entry? (here ++ [part]) with
    | none => exact hends (.inl (content?_eq_none_iff.mpr hentry))
    | some e =>
      cases e with
      | file bytes time => exact hends (.inr ⟨bytes, content?_eq_file_iff.mpr ⟨time, hentry⟩⟩)
      | directory time =>
        rw [walk_directory hname hentry] at h
        exact .down hname (content?_eq_directory_iff.mpr ⟨time, hentry⟩) (ih h)
      | link target =>
        cases links with
        | zero =>
          rw [walk_link_zero hname hentry] at h
          cases h
        | succ n =>
          rw [walk_link hname hentry] at h
          exact .follow hname (content?_eq_link_iff.mpr hentry) (hbehind n rfl _ _ h)

theorem leads_of_walk {links : Nat} {here : Place} {parts : List Name}
    (h : t.walk true links here parts = .ok place) : t.Leads links here parts place := by
  induction links generalizing here parts with
  | zero => exact leads_of_walk_behind (fun n hn => absurd hn (Nat.zero_ne_add_one n)) h
  | succ links ih =>
    refine leads_of_walk_behind (fun n hn here parts hwalk => ?_) h
    obtain rfl : links = n := Nat.succ.inj hn
    exact ih hwalk

theorem Leads.walk {links : Nat} {here : Place} {parts : List Name} (h : t.Leads links here parts place) :
    t.walk true links here parts = .ok place := by
  induction h with
  | stay links here => exact walk_nil t links here
  | up h ih => rw [walk_up, ih]
  | last hname hend => exact walk_last hname hend _
  | down hname hdirectory h ih =>
    obtain ⟨time, hentry⟩ := content?_eq_directory_iff.mp hdirectory
    rw [walk_directory hname hentry, ih]
  | follow hname hlink h ih => rw [walk_link hname (content?_eq_link_iff.mp hlink), ih]

/-- Components that start outside a link never lead to the link itself: it is followed wherever it is met. -/
theorem Leads.ne_link {links : Nat} {here : Place} {parts : List Name} (h : t.Leads links here parts place)
    {target : Path} (hlink : t.content? q = some (.link target)) (hhere : ¬ q <+: here) : place ≠ q := by
  induction h with
  | stay links here =>
    rintro rfl
    exact hhere List.prefix_rfl
  | @up links here place rest h ih => exact ih fun hq => hhere (hq.trans (List.dropLast_prefix here))
  | last hname hend =>
    -- the last component is not followed only if it is no link
    rintro rfl
    rw [hlink] at hend
    obtain hend | ⟨bytes, hend⟩ := hend <;> cases hend
  | down hname hdirectory h ih =>
    refine ih fun hq => ?_
    rcases List.prefix_concat_iff.mp hq with rfl | hq
    · rw [hlink] at hdirectory
      cases hdirectory
    · exact hhere hq
  | follow hname hfollowed h ih =>
    -- a link may lead back to the root, which is none
    have hroot : q ≠ [] := by
      rintro rfl
      rw [content?_eq_link_iff, entry?_root] at hlink
      cases hlink
    refine ih fun hq => ?_
    split at hq
    · exact hroot (List.prefix_nil.mp hq)
    · exact hhere hq

/-- Where a path leads to a place that is no directory, it still does when a file stands there and, times aside, all
else is as it was. -/
theorem Leads.of_file {links : Nat} {here : Place} {parts : List Name} (h : t.Leads links here parts place)
    (hdirectory : t.content? place ≠ some (.directory 0)) {bytes : Bytes}
    (hfile : t'.content? place = some (.file bytes 0)) (hothers : ∀ q, q ≠ place → t'.content? q = t.content? q) :
    t'.Leads links here parts place := by
  induction h with
  | stay links here => exact .stay links here
  | up h ih => exact .up (ih hdirectory hfile hothers)
  | last hname hend => exact .last hname (.inr ⟨bytes, hfile⟩)
  | @down links here place part rest hname hdir h ih =>
    have hne : here ++ [part] ≠ place := by
      rintro rfl
      exact hdirectory hdir
    exact .down hname ((hothers _ hne).trans hdir) (ih hdirectory hfile hothers)
  | @follow links here place part rest target hname hlink h ih =>
    -- A link that has been left is not where the walk ends.
    have hne : place ≠ here ++ [part] := by
      refine h.ne_link hlink fun hq => ?_
      have hlength := hq.length_le
      rw [List.length_append, List.length_singleton] at hlength
      split at hlength
      · exact absurd hlength (Nat.not_succ_le_zero _)
      · omega
    exact .follow hname ((hothers _ hne.symm).trans hlink) (ih hdirectory hfile hothers)

/-! ### Writing -/

/-- What a write does to the place that it resolves to, and to the others. -/
theorem write_content? {p : Path} {bytes : Bytes} (hresolve : t.resolve true p = .ok place)
    (h : t.write p bytes = .ok t') :
    t.content? place ≠ some (.directory 0) ∧ t'.home = t.home ∧ t'.content? place = some (.file bytes 0) ∧
      ∀ q, q ≠ place → t'.content? q = t.content? q := by
  unfold write at h
  rw [hresolve] at h
  cases hentry : t.entry? place with
  | none =>
    -- the file is made
    have hno : t.content? place ≠ some (.directory 0) := by
      rw [content?_eq_none_iff.mpr hentry]
      nofun
    simp only [hentry] at h
    obtain rfl := Except.ok.inj h
    exact ⟨hno, home_create t _ _, content?_create_self t (ne_root_of_content? hno) _,
      fun q hq => content?_create_of_ne t hq _⟩
  | some e =>
    -- the file is replaced, unless it is a directory
    have hno : t.content? place ≠ some (.directory 0) := by
      intro hdirectory
      obtain ⟨time, hdir⟩ := content?_eq_directory_iff.mp hdirectory
      simp only [hdir] at h
      cases h
    have hput : t' = t.put place (.file bytes t.clock) := by
      simp only [hentry] at h
      split at h
      · cases h
      · exact (Except.ok.inj h).symm
      · next hnone => cases hnone
    subst hput
    exact ⟨hno, rfl, content?_put_self t (ne_root_of_content? hno) _, fun q hq => content?_put_of_ne t hq _⟩

/-- Whether a file can be written does not depend on what is written. -/
theorem write_eq_error_iff {p : Path} {bytes bytes' : Bytes} {f : FileFault} :
    t.write p bytes = .error f ↔ t.write p bytes' = .error f := by
  unfold write
  cases t.resolve true p with
  | error cause => exact Iff.rfl
  | ok place =>
    cases hentry : t.entry? place with
    | none => simp [hentry]
    | some e => cases e <;> simp [hentry]

/-- **Writing a file** changes the place that the path leads to, and nothing else but times; the path still leads
there. -/
theorem write_effect {p : Path} {bytes : Bytes} (h : t.write p bytes = .ok t') :
    ∃ place, t'.resolve true p = .ok place ∧ t'.file? place = some bytes ∧
      ∀ q, q ≠ place → t'.file? q = t.file? q := by
  cases hresolve : t.resolve true p with
  | error cause =>
    unfold write at h
    rw [hresolve] at h
    cases h
  | ok place =>
    obtain ⟨hdirectory, hhome, hfile, hothers⟩ := write_content? hresolve h
    refine ⟨place, ?_, ?_, fun q hq => file?_of_content? (hothers q hq)⟩
    · -- the walk meets only directories and links on its way, and the write has touched none
      unfold resolve at hresolve ⊢
      cases hp : unusable? p with
      | some cause =>
        rw [hp] at hresolve
        cases hresolve
      | none =>
        rw [hp] at hresolve
        rw [hhome]
        exact ((leads_of_walk hresolve).of_file hdirectory hfile hothers).walk
    · rw [file?_eq_content?, hfile]
      rfl

end FileTree

end Trellis

import AvrKernel.Registry.Hive

/-!
# Files that keep what is written

A store of files in which calls fail only for the lack of room, and what a
registry program writes to one of them or reads from it.
-/

namespace AvrKernel.Registry

open Bytes Effect

/-- The file that is open, and the position of the next access. -/
structure OpenFile where
  path : List UInt8
  position : Nat

/-- The open file after an access to `count` more bytes. -/
def OpenFile.after (file : OpenFile) (count : Nat) : OpenFile :=
  { file with position := file.position + count }

/-- Files of at most `limit` bytes. What a file grows by has some content. -/
structure Store where
  files : List UInt8 → Option (List UInt8)
  openFile : Option OpenFile
  creatable : List UInt8 → Bool
  fresh : Nat → UInt8
  limit : Nat
  limit_lt : limit < 2 ^ 32
  /-- The bytes written since the file was opened. -/
  written : Nat

namespace Store

variable (s : Store)

def setFile (path content : List UInt8) : Store :=
  { s with files := Function.update s.files path (some content) }

def content (path : List UInt8) : List UInt8 := (s.files path).getD []

/-- The first bytes of a file, or all of them and new ones. -/
def resized (content : List UInt8) (size : Nat) : List UInt8 :=
  content.take size ++ (List.range' content.length (size - content.length)).map s.fresh

/-- Bytes written at the position of the open file. -/
def wrote (file : OpenFile) (bytes : List UInt8) : Store :=
  { s.setFile file.path (patch (s.content file.path) file.position bytes) with
    openFile := some (file.after bytes.length)
    written := s.written + bytes.length }

/-- Bytes read at the position of the open file. -/
def skipped (file : OpenFile) (count : Nat) : Store :=
  { s with openFile := some (file.after count) }

def opened (path : List UInt8) : Store :=
  { s with openFile := some { path, position := 0 }, written := 0 }

/-- The answer to a call. Memory is always available. -/
def handle : Prog.Handler RegistryCall RegistryCall.Answer Store
  | .vfsExists path, s => ((s.files path).isSome, s)
  | .vfsOpen path flags, s =>
      if (s.files path).isSome then (true, s.opened path)
      else if flags &&& vfsOpenCreate ≠ 0 ∧ s.creatable path then
        (true, (s.setFile path []).opened path)
      else (false, s)
  | .vfsClose, s => ((), { s with openFile := none })
  | .vfsTruncate path newSize, s =>
      match s.files path with
      | none => (false, s)
      | some content =>
          -- a file that cannot be resized is not reported
          if newSize.toNat ≤ s.limit then (true, s.setFile path (s.resized content newSize.toNat))
          else (true, s)
  | .vfsRead size, s =>
      match s.openFile with
      | none => (none, s)
      | some file =>
          let bytes := ((s.content file.path).drop file.position).take size.toNat
          (some bytes, s.skipped file bytes.length)
  | .vfsWrite source, s =>
      match s.openFile with
      | none => (0xFFFFFFFF, s)
      | some file =>
          if file.position + source.length ≤ s.limit then
            (.ofNat source.length, s.wrote file source)
          else (0, s)
  | .malloc _, s => (true, s)

/-- Run a program on a store. The loops of the registry are bounded. -/
def run {α : Type} (p : RegistryM α) (s : Store) : Option (α × Store) := p.run 0 handle s

variable {s} {α β : Type}

@[simp] theorem run_pure (value : α) : run (pure value) s = some (value, s) := rfl

theorem run_bind (p : RegistryM α) (f : α → RegistryM β) :
    run (p >>= f) s = (run p s).bind fun result => run (f result.1) result.2 :=
  Prog.run_bind 0 handle p f s

theorem run_bind_of {p : RegistryM α} {f : α → RegistryM β} {value : α} {s' : Store}
    (h : run p s = some (value, s')) : run (p >>= f) s = run (f value) s' := by
  rw [run_bind, h]
  rfl

/-- The open file and the bytes of it up to and from the position of the next access. -/
structure At (s : Store) (file : OpenFile) (past rest : List UInt8) : Prop where
  openFile : s.openFile = some file
  content : s.files file.path = some (past ++ rest)
  position : file.position = past.length

variable {file : OpenFile} {past rest b c : List UInt8}

theorem At.content_eq (h : s.At file past rest) : s.content file.path = past ++ rest := by
  rw [Store.content, h.content]
  rfl

theorem At.files_wrote (h : s.At file past rest) :
    (s.wrote file b).files =
      Function.update s.files file.path (some (past ++ b ++ rest.drop b.length)) := by
  have hpatch : patch (past ++ rest) past.length b = past ++ b ++ rest.drop b.length := by
    simp [patch, List.drop_append]
  rw [← hpatch, ← h.content_eq, ← h.position]
  rfl

theorem At.wrote (h : s.At file past rest) (b : List UInt8) :
    (s.wrote file b).At (file.after b.length) (past ++ b) (rest.drop b.length) where
  openFile := rfl
  content := by
    rw [h.files_wrote]
    exact Function.update_self ..
  position := by
    rw [List.length_append, ← h.position]
    rfl

theorem At.skipped (h : s.At file past (b ++ rest)) :
    (s.skipped file b.length).At (file.after b.length) (past ++ b) rest where
  openFile := rfl
  content := by
    rw [List.append_assoc]
    exact h.content
  position := by
    rw [List.length_append, ← h.position]
    rfl

theorem At.wrote_nil (h : s.At file past rest) : s.wrote file [] = s := by
  have hfiles : (s.wrote file []).files = s.files := by
    rw [h.files_wrote, Function.update_eq_self_iff, h.content]
    simp
  have hopen : (s.wrote file []).openFile = s.openFile := h.openFile.symm
  obtain ⟨files, openFile, creatable, fresh, limit, hlimit, written⟩ := s
  simp only at hfiles hopen
  simp only [Store.wrote, setFile] at hfiles hopen ⊢
  rw [hfiles, hopen]
  rfl

theorem At.wrote_append (h : s.At file past rest) (b c : List UInt8) :
    (s.wrote file b).wrote (file.after b.length) c = s.wrote file (b ++ c) := by
  have hfiles : ((s.wrote file b).wrote (file.after b.length) c).files =
      (s.wrote file (b ++ c)).files := by
    rw [(h.wrote b).files_wrote, h.files_wrote, h.files_wrote]
    change Function.update (Function.update s.files file.path _) file.path _ = _
    rw [Function.update_idem]
    simp [List.append_assoc]
  have hopen : (file.after b.length).after c.length = file.after (b ++ c).length := by
    rw [List.length_append]
    simp [OpenFile.after, Nat.add_assoc]
  have hwritten : s.written + b.length + c.length = s.written + (b ++ c).length := by
    rw [List.length_append, Nat.add_assoc]
  simp only [Store.wrote, setFile] at hfiles ⊢
  rw [hfiles, hopen, hwritten]

theorem At.skipped_zero (h : s.At file past rest) : s.skipped file 0 = s := by
  have hopen : some (file.after 0) = s.openFile := h.openFile.symm
  rw [Store.skipped, hopen]

theorem skipped_skipped (m n : Nat) :
    (s.skipped file m).skipped (file.after m) n = s.skipped file (m + n) := by
  simp [Store.skipped, OpenFile.after, Nat.add_assoc]

/-! ## What programs write -/

/-- The program writes `b` and returns `true`; without room for it, it returns `false`. -/
def Writes (p : RegistryM Bool) (b : List UInt8) : Prop :=
  ∀ s file past rest, At s file past rest → past.length ≤ s.limit →
    (past.length + b.length ≤ s.limit → run p s = some (true, s.wrote file b)) ∧
    (s.limit < past.length + b.length → ∃ s', run p s = some (false, s'))

theorem writes_nil : Writes (pure true) [] := by
  intro s file past rest h hroom
  refine ⟨fun _ => by rw [h.wrote_nil]; rfl, fun hfull => absurd hroom (Nat.not_le.mpr hfull)⟩

theorem Writes.andThen {p q : RegistryM Bool} (hp : Writes p b) (hq : Writes q c) :
    Writes (RegistryM.andThen p q) (b ++ c) := by
  intro s file past rest h hroom
  obtain ⟨hfits, hfull⟩ := hp s file past rest h hroom
  by_cases hfirst : past.length + b.length ≤ s.limit
  · have hlength : (past ++ b).length = past.length + b.length := List.length_append
    obtain ⟨hfits', hfull'⟩ := hq _ _ _ _ (h.wrote b) (by rw [hlength]; exact hfirst)
    rw [RegistryM.andThen, run_bind_of (hfits hfirst), List.length_append, ← Nat.add_assoc]
    constructor
    · intro hsecond
      rw [← h.wrote_append]
      exact hfits' (by rw [hlength]; exact hsecond)
    · intro hsecond
      exact hfull' (by rw [hlength]; exact hsecond)
  · constructor
    · intro hboth
      rw [List.length_append] at hboth
      omega
    · intro _
      obtain ⟨s', hrun⟩ := hfull (Nat.not_le.mp hfirst)
      exact ⟨s', by rw [RegistryM.andThen, run_bind_of hrun]; rfl⟩

theorem writes_regWriteExact (hlength : b.length < 2 ^ 32) :
    Writes (RegistryM.regWriteExact b) b := by
  intro s file past rest h hroom
  have hcount : (UInt32.ofNat b.length).toNat = b.length := UInt32.toNat_ofNat_of_lt' hlength
  by_cases hb : UInt32.ofNat b.length = 0
  · obtain rfl : b = [] := by
      rw [hb] at hcount
      exact List.length_eq_zero_iff.mp hcount.symm
    exact writes_nil s file past rest h hroom
  · rw [RegistryM.regWriteExact, if_neg hb]
    have hrun : run (do
        let count ← Prog.perform (RegistryCall.vfsWrite b)
        return decide (count = UInt32.ofNat b.length)) s =
        some (decide ((handle (.vfsWrite b) s).1 = UInt32.ofNat b.length),
          (handle (.vfsWrite b) s).2) := rfl
    rw [hrun]
    have hposition : file.position = past.length := h.position
    constructor
    · intro hfits
      simp [handle, h.openFile, hposition, hfits]
    · intro hfull
      refine ⟨s, ?_⟩
      simp [handle, h.openFile, hposition, Nat.not_le.mpr hfull, Ne.symm hb]

/-! ## What programs read -/

/-- The program reads `b` and returns `value`. -/
def Reads {α : Type} (p : RegistryM α) (b : List UInt8) (value : α) : Prop :=
  ∀ s file past rest, At s file past (b ++ rest) →
    run p s = some (value, s.skipped file b.length)

/-- The program reads some of `b` and returns nothing. -/
def Fails {α : Type} (p : RegistryM (Option α)) (b : List UInt8) : Prop :=
  ∀ s file past rest, At s file past (b ++ rest) → ∃ s', run p s = some (none, s')

theorem reads_pure {α : Type} (value : α) : Reads (pure value) [] value := by
  intro s file past rest h
  rw [List.length_nil, h.skipped_zero]
  rfl

theorem Reads.bind {α β : Type} {p : RegistryM α} {f : α → RegistryM β} {value : α} {result : β}
    (hp : Reads p b value) (hf : Reads (f value) c result) : Reads (p >>= f) (b ++ c) result := by
  intro s file past rest h
  rw [List.append_assoc] at h
  rw [run_bind_of (hp s file past _ h), hf _ _ _ _ h.skipped, skipped_skipped, List.length_append]

theorem Reads.fails {α β : Type} {p : RegistryM α} {f : α → RegistryM (Option β)} {value : α}
    (hp : Reads p b value) (hf : Fails (f value) c) : Fails (p >>= f) (b ++ c) := by
  intro s file past rest h
  rw [List.append_assoc] at h
  rw [run_bind_of (hp s file past _ h)]
  exact hf _ _ _ _ h.skipped

theorem Fails.bind {α β : Type} {p : RegistryM (Option α)} {f : Option α → RegistryM (Option β)}
    (hp : Fails p b) (hf : f none = pure none) : Fails (p >>= f) (b ++ c) := by
  intro s file past rest h
  rw [List.append_assoc] at h
  obtain ⟨s', hrun⟩ := hp s file past _ h
  exact ⟨s', by rw [run_bind_of hrun, hf]; rfl⟩

theorem reads_regReadExact (hlength : b.length < 2 ^ 32) {size : UInt32}
    (hsize : size.toNat = b.length) : Reads (RegistryM.regReadExact size) b (some b) := by
  intro s file past rest h
  by_cases hzero : size = 0
  · obtain rfl : b = [] := by
      rw [hzero] at hsize
      exact List.length_eq_zero_iff.mp hsize.symm
    rw [RegistryM.regReadExact, if_pos hzero]
    exact reads_pure (some []) s file past rest h
  · rw [RegistryM.regReadExact, if_neg hzero]
    have hbytes : ((s.content file.path).drop file.position).take size.toNat = b := by
      rw [h.content_eq, h.position, hsize]
      simp
    have hrun : run (do
        let bytes ← Prog.perform (RegistryCall.vfsRead size)
        return Option.filter (fun bytes : List UInt8 =>
          decide (bytes.length = size.toNat)) bytes) s =
        some ((handle (.vfsRead size) s).1.filter fun bytes => decide (bytes.length = size.toNat),
          (handle (.vfsRead size) s).2) := rfl
    have hread : handle (.vfsRead size) s = (some b, s.skipped file b.length) := by
      simp only [handle, h.openFile, hbytes]
    rw [hrun, hread]
    simp [hsize]

/-- A reader of `b`: it succeeds with `value` if `good` holds, and fails if not. -/
def Outcome {α : Type} (good : Prop) (p : RegistryM (Option α)) (b : List UInt8) (value : α) :
    Prop :=
  (good → Reads p b (some value)) ∧ (¬ good → Fails p b)

theorem Reads.outcome {α β : Type} {good : Prop} {p : RegistryM α}
    {f : α → RegistryM (Option β)} {value : α} {result : β} (hp : Reads p b value)
    (hf : Outcome good (f value) c result) : Outcome good (p >>= f) (b ++ c) result :=
  ⟨fun hgood => hp.bind (hf.1 hgood), fun hbad => hp.fails (hf.2 hbad)⟩

theorem Outcome.bind {α β : Type} {good good' : Prop} {p : RegistryM (Option α)}
    {f : Option α → RegistryM (Option β)} {value : α} {result : β}
    (hp : Outcome good p b value) (hf : Outcome good' (f (some value)) c result)
    (hnone : f none = pure none) : Outcome (good ∧ good') (p >>= f) (b ++ c) result := by
  constructor
  · intro hboth
    exact (hp.1 hboth.1).bind (hf.1 hboth.2)
  · intro hbad
    by_cases hgood : good
    · exact (hp.1 hgood).fails (hf.2 fun hgood' => hbad ⟨hgood, hgood'⟩)
    · exact (hp.2 hgood).bind hnone

end Store

end AvrKernel.Registry

import Mathlib.Algebra.Group.Nat.Defs
import Mathlib.Data.List.Lex
import Pacto.Support.PrefixCode
import Pacto.Support.Sequence

/-!
# The content hash of a bundle

`HashFS` feeds the path and the content of every file of a tree, each behind its
length, into SHA-256.  The files are taken by path, so the order in which
directories list their entries does not matter.

The framing loses nothing: two streams are equal only for the same files.  What
is hashed is whatever is not a directory, so a symbolic link counts as the file
it leads to, although the digest is meant to be of the regular files alone.  The
hash tells the regular files apart exactly where all entries do.
-/

namespace Pacto.Lock

open Pacto.Support

abbrev Byte := Fin 256

/-- What a name of a directory stands for: a directory, with the error of reading
it and the entries in the order listed, or a file with what reading it gives.  A
link or a device is a file that is not regular. -/
inductive FileEntry where
  | dir (err : Option String) (entries : List (List Byte × FileEntry))
  | file (regular : Bool) (data : Except String (List Byte))

@[ext] structure File where
  path : List Byte
  data : List Byte
  deriving DecidableEq

def slash : Byte := 47

/-- The root of `fs.WalkDir`. -/
def dot : List Byte := [46]

/-- `path.Join` of a directory and the name of an entry in it. -/
def join (p name : List Byte) : List Byte := if p = dot then name else p ++ slash :: name

/-! ## The code -/

mutual

/-- The files `fs.WalkDir` hands to `HashFS` at `p`, up to the first error. -/
def walkDir (p : List Byte) : FileEntry → Except String (List File)
  | .dir (some err) _ => .error err
  | .dir none entries => walkEntries p entries
  | .file _ (.error err) => .error err
  | .file _ (.ok data) => .ok [⟨p, data⟩]

def walkEntries (p : List Byte) : List (List Byte × FileEntry) → Except String (List File)
  | [] => .ok []
  | (name, e) :: rest => do
    let files ← walkDir (join p name) e
    let more ← walkEntries p rest
    pure (files ++ more)

end

/-- `k` bytes of a number, the most significant first. -/
def bigEndian : ℕ → ℕ → List Byte
  | 0, _ => []
  | k + 1, n => bigEndian k (n / 256) ++ [Fin.ofNat 256 n]

/-- A byte string behind its length, as `binary.BigEndian.PutUint64` writes it. -/
def frame (d : List Byte) : List Byte := bigEndian 8 d.length ++ d

/-- What is written to the hash. -/
def stream (files : List File) : List Byte := files.flatMap fun f => frame f.path ++ frame f.data

def hexByte (b : Byte) : List Char := [Nat.digitChar (b / 16), Nat.digitChar (b % 16)]

/-- The digest of a stream, where `sum` stands for SHA-256. -/
def digest (sum : List Byte → List Byte) (s : List Byte) : String :=
  "sha256:" ++ String.ofList ((sum s).flatMap hexByte)

def hashFS (sum : List Byte → List Byte) (root : FileEntry) : Except String String := do
  let files ← walkDir dot root
  pure (digest sum (stream (files.insertionSort (·.path ≤ ·.path))))

/-! ## File systems -/

/-- A name `fs.ValidPath` allows as an element of a path. -/
def Name (n : List Byte) : Prop := n ≠ [] ∧ n ≠ dot ∧ slash ∉ n

instance : DecidablePred Name := fun n => inferInstanceAs (Decidable (n ≠ [] ∧ n ≠ dot ∧ slash ∉ n))

/-- A directory has one entry a name. -/
inductive FileEntry.Named : FileEntry → Prop
  | file {regular data} : Named (.file regular data)
  | dir {err entries} (distinct : (entries.map Prod.fst).Nodup)
      (names : ∀ n e, (n, e) ∈ entries → Name n) (each : ∀ n e, (n, e) ∈ entries → Named e) :
      Named (.dir err entries)

/-- The lengths of the path and the content are those of a Go string and slice. -/
def File.Fits (f : File) : Prop := f.path.length < 2 ^ 63 ∧ f.data.length < 2 ^ 63

structure FileSystem where
  root : FileEntry
  named : root.Named
  fits : ∀ files, walkDir dot root = .ok files → ∀ f ∈ files, f.Fits

/-- `f` is a regular file of `e`, which stands at `p`. -/
inductive Regular : List Byte → FileEntry → File → Prop
  | file {p data} : Regular p (.file true (.ok data)) ⟨p, data⟩
  | dir {p err entries n e f} (mem : (n, e) ∈ entries) (below : Regular (join p n) e f) :
      Regular p (.dir err entries) f

/-- `f` is an entry of `e`, which stands at `p`, that is not a directory. -/
inductive Listed : List Byte → FileEntry → File → Prop
  | file {p regular data} : Listed p (.file regular (.ok data)) ⟨p, data⟩
  | dir {p err entries n e f} (mem : (n, e) ∈ entries) (below : Listed (join p n) e f) :
      Listed p (.dir err entries) f

/-- Directories can be listed, and everything else can be read. -/
inductive FileEntry.Readable : FileEntry → Prop
  | file {regular data} : Readable (.file regular (.ok data))
  | dir {entries} (each : ∀ n e, (n, e) ∈ entries → Readable e) : Readable (.dir none entries)

variable {p q n n' : List Byte} {e : FileEntry} {f : File} {files files' : List File}
  {entries : List (List Byte × FileEntry)}

/-! ## Paths -/

/-- `q` is `p` or lies below the directory `p`. -/
def Under (p q : List Byte) : Prop := ∃ t, q = p ++ t ∧ t.takeWhile (· ≠ slash) = []

theorem join_ne_dot (h : Name n) : join p n ≠ dot := by
  rw [join]
  split
  · exact h.2.1
  · intro heq
    have hmem : slash ∈ dot := heq ▸ by simp
    exact absurd hmem (by decide)

theorem Under.join (hp : p ≠ dot) (h : Under (join p n) q) : Under p q := by
  obtain ⟨t, rfl, -⟩ := h
  refine ⟨slash :: n ++ t, ?_, by simp⟩
  simp [Lock.join, hp]

/-- The path of a file tells the name it has in any directory above it. -/
theorem Under.name_unique (hn : Name n) (hn' : Name n') (h : Under (Lock.join p n) q)
    (h' : Under (Lock.join p n') q) : n = n' := by
  obtain ⟨pre, hpre⟩ : ∃ pre, ∀ m, Lock.join p m = pre ++ m := by
    by_cases hp : p = dot
    · exact ⟨[], fun m => by simp [Lock.join, hp]⟩
    · exact ⟨p ++ [slash], fun m => by simp [Lock.join, hp]⟩
  obtain ⟨t, rfl, ht⟩ := h
  obtain ⟨t', heq, ht'⟩ := h'
  rw [hpre, hpre, List.append_assoc, List.append_assoc, List.append_cancel_left_eq] at heq
  have hword : ∀ {m u : List Byte}, Name m → u.takeWhile (· ≠ slash) = [] →
      (m ++ u).takeWhile (· ≠ slash) = m := by
    intro m u hm hu
    rw [List.takeWhile_append_of_pos, hu, List.append_nil]
    intro b hb
    rw [decide_eq_true_eq]
    rintro rfl
    exact hm.2.2 hb
  rw [← hword hn ht, heq, hword hn' ht']

theorem Listed.under (h : Listed p e f) (hnamed : e.Named) (hp : p ≠ dot) : Under p f.path := by
  induction h with
  | file => exact ⟨[], by simp, rfl⟩
  | dir mem _ ih =>
    cases hnamed with
    | dir _ names each => exact (ih (each _ _ mem) (join_ne_dot (names _ _ mem))).join hp

/-! ## The walk -/

/-- `files` are the entries of `e` that are not directories, each once. -/
structure Collects (p : List Byte) (e : FileEntry) (files : List File) : Prop where
  distinct : (files.map File.path).Nodup
  mem_iff : ∀ f, f ∈ files ↔ Listed p e f

theorem walkEntries_collects (hdistinct : (entries.map Prod.fst).Nodup)
    (hnames : ∀ n e, (n, e) ∈ entries → Name n)
    (heach : ∀ n e, (n, e) ∈ entries → e.Named ∧
      ∃ files, walkDir (join p n) e = .ok files ∧ Collects (join p n) e files) :
    ∃ files, walkEntries p entries = .ok files ∧ Collects p (.dir none entries) files := by
  induction entries with
  | nil =>
    refine ⟨[], rfl, List.nodup_nil, fun f => ⟨fun h => absurd h List.not_mem_nil, ?_⟩⟩
    rintro (_ | ⟨mem, -⟩)
    exact absurd mem List.not_mem_nil
  | cons entry rest ih =>
    obtain ⟨n, e⟩ := entry
    rw [List.map_cons, List.nodup_cons] at hdistinct
    obtain ⟨hnamed, files, hwalk, hfiles⟩ := heach n e List.mem_cons_self
    obtain ⟨more, hrest, hmore⟩ := ih hdistinct.2
      (fun m e' hm => hnames m e' (List.mem_cons_of_mem _ hm))
      (fun m e' hm => heach m e' (List.mem_cons_of_mem _ hm))
    have hn := hnames n e List.mem_cons_self
    refine ⟨files ++ more, by simp [walkEntries, hwalk, hrest, bind, Except.bind, pure, Except.pure],
      ?_, fun f => ?_⟩
    · rw [List.map_append, List.nodup_append]
      refine ⟨hfiles.distinct, hmore.distinct, ?_⟩
      rintro _ hleft _ hright rfl
      obtain ⟨f, hf, rfl⟩ := List.mem_map.mp hleft
      obtain ⟨g, hg, hpath⟩ := List.mem_map.mp hright
      cases (hmore.mem_iff g).mp hg with
      | dir mem below =>
        rename_i m e'
        have hm := hnames m e' (List.mem_cons_of_mem _ mem)
        have hunder := ((hfiles.mem_iff f).mp hf).under hnamed (join_ne_dot hn)
        have hunder' := below.under (heach m e' (List.mem_cons_of_mem _ mem)).1 (join_ne_dot hm)
        -- one path in two entries of a directory would give them one name
        rw [Under.name_unique hn hm hunder (hpath ▸ hunder')] at hdistinct
        exact hdistinct.1 (List.mem_map.mpr ⟨(m, e'), mem, rfl⟩)
    · rw [List.mem_append, hfiles.mem_iff, hmore.mem_iff]
      constructor
      · rintro (h | _ | ⟨mem, below⟩)
        · exact .dir List.mem_cons_self h
        · exact .dir (List.mem_cons_of_mem _ mem) below
      · rintro (_ | ⟨mem, below⟩)
        rcases List.mem_cons.mp mem with heq | mem
        · cases heq
          exact .inl below
        · exact .inr (.dir mem below)

theorem walkDir_collects (h : e.Readable) (hnamed : e.Named) (p : List Byte) :
    ∃ files, walkDir p e = .ok files ∧ Collects p e files := by
  induction h generalizing p with
  | file =>
    refine ⟨_, rfl, List.nodup_singleton _, fun f => ?_⟩
    rw [List.mem_singleton]
    constructor
    · rintro rfl
      exact .file
    · rintro ⟨⟩
      rfl
  | dir _ ih =>
    cases hnamed with
    | dir distinct names each =>
      exact walkEntries_collects distinct names fun n e hmem =>
        ⟨each n e hmem, ih n e hmem (each n e hmem) _⟩

mutual

theorem readable_of_walkDir :
    ∀ (e : FileEntry) {p files}, walkDir p e = .ok files → e.Readable
  | .file _ (.ok _), _, _, _ => .file
  | .dir none entries, _, _, h => .dir (readable_of_walkEntries entries h)

theorem readable_of_walkEntries : ∀ (entries : List (List Byte × FileEntry)) {p files},
    walkEntries p entries = .ok files → ∀ n e, (n, e) ∈ entries → e.Readable
  | [], _, _, _ => by simp
  | (m, d) :: rest, p, files, h => by
    rw [walkEntries] at h
    cases hfiles : walkDir (join p m) d with
    | error err =>
      rw [hfiles] at h
      cases h
    | ok found =>
      cases hmore : walkEntries p rest with
      | error err =>
        rw [hfiles, hmore] at h
        cases h
      | ok more =>
        rintro n e (_ | ⟨_, hmem⟩)
        · exact readable_of_walkDir d hfiles
        · exact readable_of_walkEntries rest hmore n e hmem

end

/-- Two walks that find the same files sort them alike. -/
theorem Collects.sort_eq {d : FileEntry} (h : Collects p d files) (h' : Collects p e files')
    (hsame : ∀ f, Listed p d f ↔ Listed p e f) :
    files.insertionSort (·.path ≤ ·.path) = files'.insertionSort (·.path ≤ ·.path) := by
  have hperm : files.Perm files' := by
    rw [List.perm_ext_iff_of_nodup h.distinct.of_map h'.distinct.of_map]
    intro f
    rw [h.mem_iff, h'.mem_iff, hsame]
  exact insertionSort_key_eq_of_perm h.distinct hperm

/-! ## The framing -/

theorem length_bigEndian (k n : ℕ) : (bigEndian k n).length = k := by
  induction k generalizing n with
  | zero => rfl
  | succ k ih => rw [bigEndian, List.length_append, ih, List.length_singleton]

theorem bigEndian_inj {k n m : ℕ} (hn : n < 256 ^ k) (hm : m < 256 ^ k)
    (h : bigEndian k n = bigEndian k m) : n = m := by
  induction k generalizing n m with
  | zero => omega
  | succ k ih =>
    rw [Nat.pow_succ] at hn hm
    obtain ⟨hhigh, hlow⟩ := List.append_inj' h rfl
    have hdiv : n / 256 = m / 256 := ih (by omega) (by omega) hhigh
    have hmod : n % 256 = m % 256 := by simpa [Fin.ext_iff] using hlow
    omega

/-- A framed byte string is told apart from whatever follows it. -/
theorem frame_append_inj {a b s t : List Byte} (ha : a.length < 2 ^ 63) (hb : b.length < 2 ^ 63)
    (h : frame a ++ s = frame b ++ t) : a = b ∧ s = t := by
  rw [frame, frame, List.append_assoc, List.append_assoc] at h
  obtain ⟨hlength, hrest⟩ := List.append_inj h (by simp [length_bigEndian])
  have hbound : (2 : ℕ) ^ 63 < 256 ^ 8 := by decide
  exact List.append_inj hrest (bigEndian_inj (ha.trans hbound) (hb.trans hbound) hlength)

theorem stream_inj (h : ∀ f ∈ files, f.Fits) (h' : ∀ f ∈ files', f.Fits)
    (heq : stream files = stream files') : files = files' := by
  have hne : ∀ (f : File) l, stream (f :: l) ≠ [] := by
    intro f l hnil
    have hlength := congrArg List.length hnil
    simp [stream, frame, length_bigEndian] at hlength
  induction files generalizing files' with
  | nil =>
    cases files' with
    | nil => rfl
    | cons f l => exact absurd heq.symm (hne f l)
  | cons f files ih =>
    cases files' with
    | nil => exact absurd heq (hne f files)
    | cons f' files' =>
      obtain ⟨hf, hfiles⟩ := List.forall_mem_cons.mp h
      obtain ⟨hf', hfiles'⟩ := List.forall_mem_cons.mp h'
      simp only [stream, List.flatMap_cons, List.append_assoc] at heq
      obtain ⟨hpath, heq⟩ := frame_append_inj hf.1 hf'.1 heq
      obtain ⟨hdata, heq⟩ := frame_append_inj hf.2 hf'.2 heq
      rw [ih hfiles hfiles' heq, File.ext hpath hdata]

theorem prefixCode_hexByte : PrefixCode hexByte where
  ne_nil _ := by simp [hexByte]
  eq_of_prefix a b h := by
    have hdigit : ∀ i < 16, ∀ j < 16, Nat.digitChar i = Nat.digitChar j → i = j := by decide
    have heq := h.eq_of_length rfl
    simp only [hexByte, List.cons.injEq, and_true] at heq
    have hhigh := hdigit _ (by omega) _ (by omega) heq.1
    have hlow := hdigit _ (by omega) _ (by omega) heq.2
    exact Fin.ext (by omega)

section Sum

variable {sum : List Byte → List Byte}

theorem digest_inj (hsum : Function.Injective sum) (h : digest sum p = digest sum q) : p = q := by
  have hchars := congrArg String.toList h
  simp only [digest, String.toList_append, String.toList_ofList, List.append_cancel_left_eq] at hchars
  exact hsum (prefixCode_hexByte.flatMap_injective hchars)

theorem hashFS_of_walkDir (h : walkDir dot e = .ok files) :
    hashFS sum e = .ok (digest sum (stream (files.insertionSort (·.path ≤ ·.path)))) := by
  rw [hashFS, h]
  rfl

/-! ## What the hash identifies -/

/-- One value is the hash of both trees. -/
def SameHash (sum : List Byte → List Byte) (d e : FileEntry) : Prop :=
  ∃ x, hashFS sum d = .ok x ∧ hashFS sum e = .ok x

/-- The trees hold the same regular files. -/
def SameFiles (d e : FileEntry) : Prop := ∀ f, Regular dot d f ↔ Regular dot e f

/-- The trees can be read, and hold the same entries that are not directories. -/
def SameEntries (d e : FileEntry) : Prop :=
  d.Readable ∧ e.Readable ∧ ∀ f, Listed dot d f ↔ Listed dot e f

/-- Two trees have one hash exactly if they hold the same entries. -/
theorem sameHash_iff (hsum : Function.Injective sum) (a b : FileSystem) :
    SameHash sum a.root b.root ↔ SameEntries a.root b.root := by
  constructor
  · rintro ⟨x, hx, hy⟩
    cases hwalk : walkDir dot a.root with
    | error err => simp [hashFS, hwalk, bind, Except.bind] at hx
    | ok files =>
      cases hwalk' : walkDir dot b.root with
      | error err => simp [hashFS, hwalk', bind, Except.bind] at hy
      | ok files' =>
        have ha := readable_of_walkDir _ hwalk
        have hb := readable_of_walkDir _ hwalk'
        obtain ⟨_, heq, hfiles⟩ := walkDir_collects ha a.named dot
        cases hwalk.symm.trans heq
        obtain ⟨_, heq', hfiles'⟩ := walkDir_collects hb b.named dot
        cases hwalk'.symm.trans heq'
        rw [hashFS_of_walkDir hwalk] at hx
        rw [hashFS_of_walkDir hwalk'] at hy
        have hsort := stream_inj (fun f hf => a.fits _ hwalk f ((List.mem_insertionSort _).mp hf))
          (fun f hf => b.fits _ hwalk' f ((List.mem_insertionSort _).mp hf))
          (digest_inj hsum (Except.ok.inj (hx.trans hy.symm)))
        refine ⟨ha, hb, fun f => ?_⟩
        rw [← hfiles.mem_iff, ← hfiles'.mem_iff, ← List.mem_insertionSort (·.path ≤ ·.path), hsort,
          List.mem_insertionSort]
  · rintro ⟨ha, hb, hsame⟩
    obtain ⟨files, hwalk, hfiles⟩ := walkDir_collects ha a.named dot
    obtain ⟨files', hwalk', hfiles'⟩ := walkDir_collects hb b.named dot
    refine ⟨_, hashFS_of_walkDir hwalk, ?_⟩
    rw [hashFS_of_walkDir hwalk', hfiles.sort_eq hfiles' hsame]

/-- The hash tells which regular files two trees hold exactly if their entries
do. -/
theorem hashFS_eq_iff (hsum : Function.Injective sum) (a b : FileSystem) :
    (SameHash sum a.root b.root ↔ SameFiles a.root b.root) ↔
      (SameEntries a.root b.root ↔ SameFiles a.root b.root) := by
  rw [sameHash_iff hsum]

end Sum

/-! ## A link -/

/-- A directory of files with the content `x`, some of them links. -/
def flat (entries : List (List Byte × Bool)) : FileEntry :=
  .dir none (entries.map fun e => (e.1, .file e.2 (.ok [120])))

theorem walkDir_flat (entries : List (List Byte × Bool)) :
    walkDir dot (flat entries) = .ok (entries.map fun e => ⟨e.1, [120]⟩) := by
  rw [flat, walkDir]
  induction entries with
  | nil => rfl
  | cons e entries ih =>
    rw [List.map_cons, walkEntries, ih]
    rfl

theorem exists_flat (entries : List (List Byte × Bool)) (hdistinct : (entries.map Prod.fst).Nodup)
    (hnames : ∀ e ∈ entries, Name e.1 ∧ e.1.length < 2 ^ 63) :
    ∃ a : FileSystem, a.root = flat entries := by
  refine ⟨⟨flat entries, .dir ?_ ?_ ?_, ?_⟩, rfl⟩
  · rw [List.map_map]
    exact hdistinct
  · intro n e hmem
    obtain ⟨e', he', heq⟩ := List.mem_map.mp hmem
    cases heq
    exact (hnames e' he').1
  · intro n e hmem
    obtain ⟨e', -, heq⟩ := List.mem_map.mp hmem
    cases heq
    exact .file
  · intro files hwalk f hf
    rw [walkDir_flat] at hwalk
    cases hwalk
    obtain ⟨e', he', rfl⟩ := List.mem_map.mp hf
    exact ⟨(hnames e' he').2, by simp⟩

theorem readable_flat (entries : List (List Byte × Bool)) : (flat entries).Readable :=
  readable_of_walkDir _ (walkDir_flat entries)

theorem listed_flat {entries : List (List Byte × Bool)} :
    Listed dot (flat entries) f ↔ f.path ∈ entries.map Prod.fst ∧ f.data = [120] := by
  obtain ⟨q, c⟩ := f
  constructor
  · rintro (_ | ⟨mem, below⟩)
    obtain ⟨e, he, heq⟩ := List.mem_map.mp mem
    cases heq
    cases below
    exact ⟨List.mem_map_of_mem he, rfl⟩
  · rintro ⟨hq, rfl⟩
    obtain ⟨e, he, rfl⟩ := List.mem_map.mp hq
    exact .dir (List.mem_map.mpr ⟨_, he, rfl⟩) .file

theorem regular_flat {entries : List (List Byte × Bool)} :
    Regular dot (flat entries) f ↔ (f.path, true) ∈ entries ∧ f.data = [120] := by
  obtain ⟨q, c⟩ := f
  constructor
  · rintro (_ | ⟨mem, below⟩)
    obtain ⟨⟨n, regular⟩, hentry, heq⟩ := List.mem_map.mp mem
    cases heq
    cases below
    exact ⟨hentry, rfl⟩
  · rintro ⟨hentry, rfl⟩
    exact .dir (List.mem_map.mpr ⟨_, hentry, rfl⟩) .file

/-- Two trees that hold the files `a` and `b` and one link have one hash, whatever the
order. -/
theorem hashFS_eq_iff_reordered :
    Function.Injective (id : List Byte → List Byte) ∧ ∃ a b : FileSystem,
      a.root = flat [([97], true), ([98], true), ([99], false)] ∧
      b.root = flat [([99], false), ([98], true), ([97], true)] ∧
      (SameHash id a.root b.root ↔ SameFiles a.root b.root) := by
  obtain ⟨a, ha⟩ := exists_flat [([97], true), ([98], true), ([99], false)] (by decide) (by decide)
  obtain ⟨b, hb⟩ := exists_flat [([99], false), ([98], true), ([97], true)] (by decide) (by decide)
  refine ⟨Function.injective_id, a, b, ha, hb,
    (hashFS_eq_iff Function.injective_id a b).mpr (iff_of_true ?_ ?_)⟩
  · rw [ha, hb]
    refine ⟨readable_flat _, readable_flat _, fun f => ?_⟩
    rw [listed_flat, listed_flat]
    simp
    tauto
  · rw [ha, hb]
    intro f
    rw [regular_flat, regular_flat]
    simp
    tauto

/-- A link to a file changes the hash, although the regular files stay the same. -/
theorem hashFS_link :
    ∃ a b : FileSystem, SameFiles a.root b.root ∧
      ∀ sum : List Byte → List Byte, Function.Injective sum → ¬SameHash sum a.root b.root := by
  obtain ⟨a, ha⟩ := exists_flat [([97], true)] (by decide) (by decide)
  obtain ⟨b, hb⟩ := exists_flat [([97], true), ([98], false)] (by decide) (by decide)
  refine ⟨a, b, fun f => ?_, fun sum hsum hsame => ?_⟩
  · rw [ha, hb, regular_flat, regular_flat]
    simp
  · obtain ⟨-, -, hlisted⟩ := (sameHash_iff hsum a b).mp hsame
    have hlink := (hlisted ⟨[98], [120]⟩).mpr (hb ▸ listed_flat.mpr (by decide))
    rw [ha, listed_flat] at hlink
    exact absurd hlink (by decide)

end Pacto.Lock

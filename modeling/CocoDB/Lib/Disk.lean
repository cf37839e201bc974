import CocoDB.Lib.Buffer

/-!
# File contents and writes

The contents of a growing file and sequences of writes to it.  Replaying a whole
sequence of writes gives the same bytes at every place it covers, whatever was
there before: this is what makes redo logging idempotent.
-/

namespace CocoDB.Lib

/-- The bytes of a file; everything past its end is zero. -/
@[ext]
structure Contents where
  data : Buf
  size : Nat
  beyond : ∀ position, size ≤ position → data position = 0

structure Write where
  offset : Nat
  bytes : Bytes
  deriving DecidableEq

def Write.Covers (write : Write) (position : Nat) : Prop :=
  write.offset ≤ position ∧ position < write.offset + write.bytes.length

namespace Contents

def empty : Contents := ⟨Buf.zero, 0, fun _ _ => rfl⟩

def bytes (contents : Contents) : Bytes :=
  contents.data.read 0 contents.size

def ofBytes (source : Bytes) : Contents where
  data := Buf.zero.write 0 source
  size := source.length
  beyond position past := by
    rw [Buf.write_apply_outside (.inr (by omega))]
    rfl

@[simp]
theorem bytes_ofBytes (source : Bytes) : (ofBytes source).bytes = source :=
  Buf.read_write_same Buf.zero 0 source

@[simp]
theorem bytes_length (contents : Contents) :
    contents.bytes.length = contents.size :=
  Buf.read_length _ _ _

def write (contents : Contents) (written : Write) : Contents where
  data := contents.data.write written.offset written.bytes
  size := max contents.size (written.offset + written.bytes.length)
  beyond position past := by
    rw [Buf.write_apply_outside (by omega)]
    exact contents.beyond position (by omega)

theorem write_data (contents : Contents) (written : Write) :
    (contents.write written).data =
      contents.data.write written.offset written.bytes := rfl

theorem write_size (contents : Contents) (written : Write) :
    (contents.write written).size =
      max contents.size (written.offset + written.bytes.length) := rfl

def writes (contents : Contents) (sequence : List Write) : Contents :=
  sequence.foldl write contents

@[simp]
theorem writes_nil (contents : Contents) : contents.writes [] = contents :=
  rfl

@[simp]
theorem writes_cons (contents : Contents) (written : Write)
    (rest : List Write) :
    contents.writes (written :: rest) =
      (contents.write written).writes rest := rfl

theorem writes_append (contents : Contents) (first second : List Write) :
    contents.writes (first ++ second) =
      (contents.writes first).writes second :=
  List.foldl_append

theorem write_data_outside (contents : Contents) {written : Write}
    {position : Nat} (outside : ¬ written.Covers position) :
    (contents.write written).data position = contents.data position := by
  refine Buf.write_apply_outside ?_
  unfold Write.Covers at outside
  omega

theorem writes_data_outside {sequence : List Write} {position : Nat}
    (outside : ∀ written, written ∈ sequence → ¬ written.Covers position)
    (contents : Contents) :
    (contents.writes sequence).data position = contents.data position := by
  induction sequence generalizing contents with
  | nil => rfl
  | cons first rest inductionHypothesis =>
      rw [writes_cons, inductionHypothesis
        (fun written member => outside written (List.mem_cons_of_mem _ member)),
        write_data_outside contents (outside first List.mem_cons_self)]

theorem size_le_writes (contents : Contents) (sequence : List Write) :
    contents.size ≤ (contents.writes sequence).size := by
  induction sequence generalizing contents with
  | nil => exact Nat.le_refl _
  | cons first rest inductionHypothesis =>
      exact (Nat.le_max_left _ _).trans
        (inductionHypothesis (contents.write first))

theorem covered_lt_size (contents : Contents) {sequence : List Write}
    {written : Write} (member : written ∈ sequence) :
    written.offset + written.bytes.length ≤
      (contents.writes sequence).size := by
  induction sequence generalizing contents with
  | nil => cases member
  | cons first rest inductionHypothesis =>
      rcases List.mem_cons.mp member with rfl | later
      · exact (Nat.le_max_right _ _).trans
          (size_le_writes (contents.write written) rest)
      · exact inductionHypothesis (contents.write first) later

theorem writes_size_le {sequence : List Write} {contents : Contents}
    {bound : Nat} (start : contents.size ≤ bound)
    (ends : ∀ written, written ∈ sequence →
      written.offset + written.bytes.length ≤ bound) :
    (contents.writes sequence).size ≤ bound := by
  induction sequence generalizing contents with
  | nil => exact start
  | cons first rest inductionHypothesis =>
      rw [writes_cons]
      refine inductionHypothesis ?_ fun written member =>
        ends written (List.mem_cons_of_mem _ member)
      exact Nat.max_le.mpr ⟨start, ends first List.mem_cons_self⟩

end Contents

/-! ## Pages of a fixed size -/

def pageWrite (pageSize : Nat) (page : Nat × Bytes) : Write :=
  ⟨page.1 * pageSize, page.2⟩

def lastBytes {ι : Type} [DecidableEq ι] (pages : List (ι × Bytes))
    (name : ι) : Option Bytes :=
  (pages.reverse.find? fun page => page.1 = name).map Prod.snd

section LastBytes

variable {ι : Type} [DecidableEq ι] {pages : List (ι × Bytes)}

theorem lastBytes_append (pages : List (ι × Bytes)) (page : ι × Bytes)
    (name : ι) :
    lastBytes (pages ++ [page]) name =
      if page.1 = name then some page.2 else lastBytes pages name := by
  unfold lastBytes
  rw [List.reverse_append, List.reverse_singleton, List.singleton_append,
    List.find?_cons]
  by_cases same : page.1 = name <;> simp [same]

theorem lastBytes_mem {name : ι} {bytes : Bytes}
    (last : lastBytes pages name = some bytes) :
    (name, bytes) ∈ pages := by
  obtain ⟨page, found, rfl⟩ := Option.map_eq_some_iff.mp last
  have same : page.1 = name := by simpa using List.find?_some found
  subst same
  exact List.mem_reverse.mp (List.mem_of_find?_eq_some found)

theorem lastBytes_isSome {page : ι × Bytes} (member : page ∈ pages) :
    (lastBytes pages page.1).isSome := by
  unfold lastBytes
  rw [Option.isSome_map, List.find?_isSome]
  exact ⟨page, List.mem_reverse.mpr member, by simp⟩

theorem lastBytes_map {number : ι → Nat} {name : ι}
    (apart : ∀ page, page ∈ pages → number page.1 = number name →
      page.1 = name) :
    lastBytes (pages.map fun page => (number page.1, page.2))
      (number name) = lastBytes pages name := by
  induction pages using List.reverseRecOn with
  | nil => rfl
  | append_singleton pages page inductionHypothesis =>
      rw [List.map_append, List.map_singleton, lastBytes_append,
        lastBytes_append, inductionHypothesis fun other member =>
          apart other (List.mem_append_left _ member)]
      by_cases same : page.1 = name
      · rw [if_pos same, if_pos (congrArg number same)]
      · rw [if_neg same, if_neg fun equal =>
          same (apart page (by simp) equal)]

end LastBytes

theorem pages_disjoint (pageSize : Nat) {first second : Nat}
    (different : first ≠ second) :
    first * pageSize + pageSize ≤ second * pageSize ∨
      second * pageSize + pageSize ≤ first * pageSize := by
  rcases Nat.lt_or_gt_of_ne different with less | greater
  · left
    have bound := Nat.mul_le_mul_right pageSize (Nat.succ_le_of_lt less)
    rwa [Nat.succ_mul] at bound
  · right
    have bound := Nat.mul_le_mul_right pageSize (Nat.succ_le_of_lt greater)
    rwa [Nat.succ_mul] at bound

theorem Contents.writes_pages {pageSize : Nat} {pages : List (Nat × Bytes)}
    (sized : ∀ page, page ∈ pages → page.2.length = pageSize)
    (contents : Contents) (number : Nat) :
    (contents.writes (pages.map (pageWrite pageSize))).data.read
        (number * pageSize) pageSize =
      (lastBytes pages number).getD
        (contents.data.read (number * pageSize) pageSize) := by
  induction pages using List.reverseRecOn with
  | nil => rfl
  | append_singleton pages page inductionHypothesis =>
      have length := sized page (by simp)
      rw [List.map_append, writes_append, lastBytes_append]
      show ((contents.writes _).data.write (page.1 * pageSize) page.2).read _ _ =
        _
      by_cases same : page.1 = number
      · subst same
        rw [if_pos rfl, Option.getD_some]
        have stored := Buf.read_write_same
          (contents.writes (pages.map (pageWrite pageSize))).data
          (page.1 * pageSize) page.2
        rwa [length] at stored
      · have disjoint := pages_disjoint pageSize same
        rw [if_neg same, Buf.read_write_disjoint (by omega),
          inductionHypothesis fun other member =>
            sized other (List.mem_append_left _ member)]

/-! ## Crashes -/

/-- A write that was cut off: the range it covers may hold anything. -/
structure TornWrite (before : Contents) (written : Write) (after : Contents) :
    Prop where
  outside : ∀ position, ¬ written.Covers position →
    after.data position = before.data position
  size_ge : before.size ≤ after.size
  size_le : after.size ≤ (before.write written).size

theorem Contents.tornWrite_write (before : Contents) (written : Write) :
    TornWrite before written (before.write written) :=
  ⟨fun _ outside => before.write_data_outside outside, Nat.le_max_left _ _,
    Nat.le_refl _⟩

/-- What a crash can leave of a sequence of writes: a prefix of it, and possibly
a part of the next write, of the kind that is known of torn writes. -/
inductive Crashed (detected : Write → Contents → Prop) (start : Contents)
    (sequence : List Write) : Contents → Prop
  | between {front rest : List Write} (split : sequence = front ++ rest) :
      Crashed detected start sequence (start.writes front)
  | torn {front rest : List Write} {written : Write} {after : Contents}
      (split : sequence = front ++ written :: rest)
      (torn : TornWrite (start.writes front) written after)
      (known : detected written after) :
      Crashed detected start sequence after

namespace Crashed

variable {detected : Write → Contents → Prop} {start crashed : Contents}
  {sequence : List Write}

theorem data_outside (crash : Crashed detected start sequence crashed)
    {position : Nat}
    (outside : ∀ written, written ∈ sequence → ¬ written.Covers position) :
    crashed.data position = start.data position := by
  cases crash with
  | between split =>
      subst split
      exact Contents.writes_data_outside
        (fun written member => outside written (List.mem_append_left _ member))
        start
  | torn split torn _ =>
      subst split
      rw [torn.outside position (outside _ (by simp))]
      exact Contents.writes_data_outside
        (fun written member => outside written (List.mem_append_left _ member))
        start

theorem size_ge (crash : Crashed detected start sequence crashed) :
    start.size ≤ crashed.size := by
  cases crash with
  | between _ => exact start.size_le_writes _
  | torn _ torn _ => exact (start.size_le_writes _).trans torn.size_ge

theorem size_le (crash : Crashed detected start sequence crashed) :
    crashed.size ≤ (start.writes sequence).size := by
  cases crash with
  | between split =>
      subst split
      rw [Contents.writes_append]
      exact Contents.size_le_writes _ _
  | torn split torn _ =>
      subst split
      rw [Contents.writes_append, Contents.writes_cons]
      exact torn.size_le.trans (Contents.size_le_writes _ _)

end Crashed

end CocoDB.Lib

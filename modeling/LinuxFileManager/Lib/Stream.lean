import Mathlib

/-!
# Buffered decoding of a stream

A receiver with a bounded buffer reads a stream in blocks, runs a parser over
what it holds and keeps the part the parser wants to see again. This module
treats such receivers over an arbitrary alphabet `α` and message type `μ`.

The parser answers one of three things about the data at hand: a frame of a
given length, "more data needed", or "skip one element" (`Verdict`). It is a
`Parser` when the first and the third answer are stable: data that arrives
later does not change them.

* `Scans P cap xs ms r`: the parser run along the whole stream `xs`, through a
  window of `cap` elements, yields the messages `ms` and stops in front of `r`.
  The relation is functional (`Scans.unique`) and total (`Scans.total`).
* `Reaches.frame_iff`: the `k`-th message of the scan is the frame at the
  position the scan reaches after `k` frames.
* `Locates P cap p xs fs`: the scan of `xs`, which starts at position `p`, takes
  its frames at the positions in `fs`.
* `Scans.exists_stretches`: the stream is made of the frames a scan takes, of
  elements in front of and between them at which the parser finds no frame, and
  of what the scan stops in front of.
* `Delivers P cap buf xs ms buf' closed`: the receiver, holding `buf`, is
  handed the stream `xs` in blocks that fit its buffer.
* `Delivers.scans`: whatever the blocks are, the receiver yields the messages
  of the scan, is left with the first `cap` elements of what the scan stops in
  front of, and closes exactly when that does not fit its buffer.
-/

namespace LinuxFileManager.Lib

/-- What a parser says about the data at hand. -/
inductive Verdict (μ : Type*) where
  /-- The data starts with a frame of this length that carries this message. -/
  | frame (len : ℕ) (msg : μ)
  /-- Not enough data. -/
  | more
  /-- No frame starts here. -/
  | bad
  deriving DecidableEq, Repr

/-- A parser whose definite answers are not revised when more data arrives. -/
structure Parser (α μ : Type*) where
  parse : List α → Verdict μ
  parse_nil : parse [] = .more
  frame_len : ∀ {xs n m}, parse xs = .frame n m → 0 < n ∧ n ≤ xs.length
  frame_append : ∀ {xs n m} (ys : List α), parse xs = .frame n m → parse (xs ++ ys) = .frame n m
  bad_append : ∀ {xs} (ys : List α), parse xs = .bad → parse (xs ++ ys) = .bad

section

variable {α μ : Type*} (P : Parser α μ) (cap : ℕ)

/-- `Scans P cap xs ms r`: running `P` along `xs` through a window of `cap`
    elements yields the messages `ms` and stops in front of `r`. -/
inductive Scans : List α → List μ → List α → Prop
  | more {xs : List α} : P.parse (xs.take cap) = .more → Scans xs [] xs
  | frame {xs r : List α} {n : ℕ} {m : μ} {ms : List μ} :
      P.parse (xs.take cap) = .frame n m → Scans (xs.drop n) ms r → Scans xs (m :: ms) r
  | bad {xs r : List α} {ms : List μ} :
      P.parse (xs.take cap) = .bad → Scans (xs.drop 1) ms r → Scans xs ms r

/-- `Reaches P cap xs k p`: the scan of `xs` stands at element `p` after `k`
    frames. -/
inductive Reaches (xs : List α) : ℕ → ℕ → Prop
  | start : Reaches xs 0 0
  | frame {k p n : ℕ} {m : μ} : Reaches xs k p → P.parse ((xs.drop p).take cap) = .frame n m →
      Reaches xs (k + 1) (p + n)
  | bad {k p : ℕ} : Reaches xs k p → P.parse ((xs.drop p).take cap) = .bad → Reaches xs k (p + 1)

/-- `Locates P cap p xs fs`: running `P` along `xs`, whose first element is the
    one at position `p`, takes the frames `fs`, each at its position. -/
inductive Locates : ℕ → List α → List (ℕ × μ) → Prop
  | more {p : ℕ} {xs : List α} : P.parse (xs.take cap) = .more → Locates p xs []
  | frame {p n : ℕ} {xs : List α} {m : μ} {fs : List (ℕ × μ)} :
      P.parse (xs.take cap) = .frame n m → Locates (p + n) (xs.drop n) fs → Locates p xs ((p, m) :: fs)
  | bad {p : ℕ} {xs : List α} {fs : List (ℕ × μ)} :
      P.parse (xs.take cap) = .bad → Locates (p + 1) (xs.drop 1) fs → Locates p xs fs

/-- `Delivers P cap buf xs ms buf' closed`: a receiver that holds `buf` is
    handed the stream `xs` in non-empty blocks that fit its buffer of `cap`
    elements. After each block it scans what it holds. It closes when data is
    pending and the buffer is full. -/
inductive Delivers : List α → List α → List μ → List α → Bool → Prop
  | idle (buf : List α) : Delivers buf [] [] buf false
  | block {buf b r rest buf' : List α} {ms ms' : List μ} {closed : Bool} :
      b ≠ [] → buf.length + b.length ≤ cap → Scans P cap (buf ++ b) ms r →
      Delivers r rest ms' buf' closed → Delivers buf (b ++ rest) (ms ++ ms') buf' closed
  | full {buf rest : List α} : buf.length = cap → rest ≠ [] → Delivers buf rest [] buf true

end

variable {α μ : Type*} {P : Parser α μ} {cap : ℕ}

namespace Parser

theorem ne_nil_of_bad {xs : List α} (h : P.parse xs = .bad) : xs ≠ [] := by
  rintro rfl
  rw [P.parse_nil] at h
  cases h

/-- A window of `cap` elements that covers `xs` shows `xs` followed by the
    beginning of what comes next. -/
theorem take_append_of_le {xs : List α} (h : xs.length ≤ cap) (ys : List α) :
    (xs ++ ys).take cap = xs ++ ys.take (cap - xs.length) := by
  rw [List.take_append, List.take_of_length_le h]

end Parser

namespace Scans

theorem nil : Scans P cap [] [] [] := .more (by rw [List.take_nil]; exact P.parse_nil)

/-- The scan stops where the parser asks for more data. -/
theorem residue_more {xs r : List α} {ms : List μ} (h : Scans P cap xs ms r) :
    P.parse (r.take cap) = .more := by
  induction h with
  | more h => exact h
  | frame _ _ ih => exact ih
  | bad _ _ ih => exact ih

theorem length_residue_le {xs r : List α} {ms : List μ} (h : Scans P cap xs ms r) :
    r.length ≤ xs.length := by
  induction h with
  | more _ => exact le_rfl
  | frame _ _ ih => exact ih.trans (by simp)
  | bad _ _ ih => exact ih.trans (by simp)

theorem more_inv {xs r : List α} {ms : List μ} (h : Scans P cap xs ms r)
    (hp : P.parse (xs.take cap) = .more) : ms = [] ∧ r = xs := by
  cases h with
  | more _ => exact ⟨rfl, rfl⟩
  | frame hp' _ => rw [hp] at hp'; cases hp'
  | bad hp' _ => rw [hp] at hp'; cases hp'

theorem frame_inv {xs r : List α} {ms : List μ} {n : ℕ} {m : μ} (h : Scans P cap xs ms r)
    (hp : P.parse (xs.take cap) = .frame n m) :
    ∃ ms', ms = m :: ms' ∧ Scans P cap (xs.drop n) ms' r := by
  cases h with
  | more hp' => rw [hp] at hp'; cases hp'
  | frame hp' h' => rw [hp] at hp'; cases hp'; exact ⟨_, rfl, h'⟩
  | bad hp' _ => rw [hp] at hp'; cases hp'

theorem bad_inv {xs r : List α} {ms : List μ} (h : Scans P cap xs ms r)
    (hp : P.parse (xs.take cap) = .bad) : Scans P cap (xs.drop 1) ms r := by
  cases h with
  | more hp' => rw [hp] at hp'; cases hp'
  | frame hp' _ => rw [hp] at hp'; cases hp'
  | bad _ h' => exact h'

theorem unique {xs r r' : List α} {ms ms' : List μ} (h : Scans P cap xs ms r)
    (h' : Scans P cap xs ms' r') : ms = ms' ∧ r = r' := by
  induction h generalizing ms' r' with
  | more hp =>
    obtain ⟨rfl, rfl⟩ := h'.more_inv hp
    exact ⟨rfl, rfl⟩
  | frame hp _ ih =>
    obtain ⟨ms'', rfl, h''⟩ := h'.frame_inv hp
    obtain ⟨rfl, rfl⟩ := ih h''
    exact ⟨rfl, rfl⟩
  | bad hp _ ih => exact ih (h'.bad_inv hp)

/-- Every stream has a scan: a frame and a skipped element both shorten it. -/
theorem total (P : Parser α μ) (cap : ℕ) (xs : List α) : ∃ ms r, Scans P cap xs ms r := by
  induction hn : xs.length using Nat.strongRecOn generalizing xs with
  | ind k ih =>
    cases hp : P.parse (xs.take cap) with
    | more => exact ⟨[], xs, .more hp⟩
    | frame n m =>
      obtain ⟨hpos, hle⟩ := P.frame_len hp
      rw [List.length_take] at hle
      obtain ⟨ms, r, h⟩ := ih (xs.drop n).length (by rw [List.length_drop]; omega) _ rfl
      exact ⟨m :: ms, r, .frame hp h⟩
    | bad =>
      have hne : (xs.take cap).length ≠ 0 := by simpa using Parser.ne_nil_of_bad hp
      rw [List.length_take] at hne
      obtain ⟨ms, r, h⟩ := ih (xs.drop 1).length (by rw [List.length_drop]; omega) _ rfl
      exact ⟨ms, r, .bad hp h⟩

/-- The scan of data that fits the window goes on, when `ys` follows, from the
    residue it stopped in front of. -/
theorem append {xs r ys r' : List α} {ms ms' : List μ} (h : Scans P cap xs ms r)
    (hle : xs.length ≤ cap) (h' : Scans P cap (r ++ ys) ms' r') :
    Scans P cap (xs ++ ys) (ms ++ ms') r' := by
  induction h with
  | more _ => exact h'
  | @frame xs r n m ms hp _ ih =>
    rw [List.take_of_length_le hle] at hp
    have hn := (P.frame_len hp).2
    refine .frame (n := n) ?_ ?_
    · rw [Parser.take_append_of_le hle]
      exact P.frame_append _ hp
    · rw [List.drop_append_of_le_length hn]
      exact ih (by rw [List.length_drop]; omega) h'
  | @bad xs r ms hp _ ih =>
    rw [List.take_of_length_le hle] at hp
    have hn : 1 ≤ xs.length := List.length_pos_iff.mpr (Parser.ne_nil_of_bad hp)
    refine .bad ?_ ?_
    · rw [Parser.take_append_of_le hle]
      exact P.bad_append _ hp
    · rw [List.drop_append_of_le_length hn]
      exact ih (by rw [List.length_drop]; omega) h'

end Scans

namespace Reaches

/-- From a position it reaches, the scan yields the messages still missing. -/
theorem scans {xs r : List α} {ms : List μ} {k p : ℕ} (h : Reaches P cap xs k p)
    (hs : Scans P cap xs ms r) : Scans P cap (xs.drop p) (ms.drop k) r := by
  induction h with
  | start => exact hs
  | @frame k p n m _ hp ih =>
    obtain ⟨ms', hms, h'⟩ := ih.frame_inv hp
    have hdrop : ms.drop (k + 1) = ms' := by rw [← List.tail_drop, hms, List.tail_cons]
    rwa [hdrop, ← List.drop_drop]
  | bad _ hp ih => rw [← List.drop_drop]; exact ih.bad_inv hp

/-- What is reached stays reached when data follows. -/
theorem append {xs : List α} {k p : ℕ} (h : Reaches P cap xs k p) (ys : List α) :
    p ≤ xs.length ∧ Reaches P cap (xs ++ ys) k p := by
  have hwindow : ∀ {q : ℕ}, q ≤ xs.length →
      ∃ zs, ((xs ++ ys).drop q).take cap = (xs.drop q).take cap ++ zs := by
    intro q hq
    rw [List.drop_append_of_le_length hq, List.take_append]
    exact ⟨_, rfl⟩
  induction h with
  | start => exact ⟨Nat.zero_le _, .start⟩
  | @frame k p n m _ hp ih =>
    obtain ⟨zs, hzs⟩ := hwindow ih.1
    have hn := (P.frame_len hp).2
    rw [List.length_take, List.length_drop] at hn
    exact ⟨by omega, ih.2.frame (hzs ▸ P.frame_append zs hp)⟩
  | @bad k p _ hp ih =>
    obtain ⟨zs, hzs⟩ := hwindow ih.1
    have hlen := List.length_pos_iff.mpr (Parser.ne_nil_of_bad hp)
    rw [List.length_take, List.length_drop] at hlen
    exact ⟨by omega, ih.2.bad (hzs ▸ P.bad_append zs hp)⟩

/-- The residue of a scan is the rest of the stream from a reached position. -/
theorem exists_residue {xs ys r : List α} {ms : List μ} {k p : ℕ} (h : Reaches P cap xs k p)
    (hs : Scans P cap ys ms r) (hys : ys = xs.drop p) : ∃ k' q, Reaches P cap xs k' q ∧ r = xs.drop q := by
  induction hs generalizing k p with
  | more _ => exact ⟨k, p, h, hys⟩
  | frame hp _ ih =>
    subst hys
    exact ih (h.frame hp) (List.drop_drop ..)
  | bad hp _ ih =>
    subst hys
    exact ih (h.bad hp) (List.drop_drop ..)

/-- Along a scan that starts at a reached position, every message is found at
    a reached position. -/
theorem exists_of_scans {xs ys r : List α} {ms : List μ} {k p : ℕ} (h : Reaches P cap xs k p)
    (hs : Scans P cap ys ms r) (hys : ys = xs.drop p) (j : ℕ) (m : μ) (hj : ms[j]? = some m) :
    ∃ q n, Reaches P cap xs (k + j) q ∧ P.parse ((xs.drop q).take cap) = .frame n m := by
  induction hs generalizing k p j with
  | more _ => simp at hj
  | @frame ys r n m' ms hp _ ih =>
    subst hys
    cases j with
    | zero =>
      rw [List.getElem?_cons_zero, Option.some.injEq] at hj
      subst hj
      exact ⟨p, n, h, hp⟩
    | succ j =>
      rw [List.getElem?_cons_succ] at hj
      have := ih (h.frame hp) (List.drop_drop ..) j hj
      rwa [show k + 1 + j = k + (j + 1) by omega] at this
  | bad hp _ ih =>
    subst hys
    exact ih (h.bad hp) (List.drop_drop ..) j hj

/-- The messages of a scan are the frames at the positions it reaches. -/
theorem frame_iff {xs r : List α} {ms : List μ} (hs : Scans P cap xs ms r) (k : ℕ) (m : μ) :
    (∃ p n, Reaches P cap xs k p ∧ P.parse ((xs.drop p).take cap) = .frame n m) ↔
      ms[k]? = some m := by
  constructor
  · rintro ⟨p, n, hr, hp⟩
    obtain ⟨ms', hms, -⟩ := (hr.scans hs).frame_inv hp
    rw [← Nat.add_zero k, ← List.getElem?_drop, hms, List.getElem?_cons_zero]
  · intro hk
    obtain ⟨p, n, hr, hp⟩ := Reaches.start.exists_of_scans hs rfl k m hk
    exact ⟨p, n, by rwa [Nat.zero_add] at hr, hp⟩

/-- Of two positions that a scan reaches, it comes to the second one from the
    first. -/
theorem next_le {xs : List α} {k k' p p' : ℕ} (h : Reaches P cap xs k p) (h' : Reaches P cap xs k' p')
    (hlt : p < p') :
    P.parse ((xs.drop p).take cap) ≠ .more ∧
      ∀ n m, P.parse ((xs.drop p).take cap) = .frame n m → p + n ≤ p' := by
  induction p' using Nat.strong_induction_on generalizing k k' p with
  | h p' ih =>
    cases h' with
    | start => exact absurd hlt (Nat.not_lt_zero p)
    | @frame j q n' m' hq hp' =>
      have hpos := (P.frame_len hp').1
      rcases lt_trichotomy p q with hpq | rfl | hqp
      · obtain ⟨hmore, hnext⟩ := ih q (by omega) h hq hpq
        exact ⟨hmore, fun n m hp => (hnext n m hp).trans (by omega)⟩
      · rw [hp']
        refine ⟨nofun, fun n m hp => ?_⟩
        cases hp
        exact le_rfl
      · -- the scan does not stop inside the frame at `q`
        have hle := (ih p hlt hq h hqp).2 n' m' hp'
        omega
    | @bad j q hq hp' =>
      rcases lt_trichotomy p q with hpq | rfl | hqp
      · obtain ⟨hmore, hnext⟩ := ih q (by omega) h hq hpq
        exact ⟨hmore, fun n m hp => (hnext n m hp).trans (by omega)⟩
      · rw [hp']
        exact ⟨nofun, nofun⟩
      · omega

end Reaches

namespace Locates

theorem unique {p : ℕ} {xs : List α} {fs fs' : List (ℕ × μ)} (h : Locates P cap p xs fs)
    (h' : Locates P cap p xs fs') : fs = fs' := by
  induction h generalizing fs' with
  | more hp => cases h' <;> simp_all
  | frame hp _ ih =>
    cases h' with
    | more hp' => rw [hp] at hp'; cases hp'
    | frame hp' h'' => rw [hp] at hp'; cases hp'; rw [ih h'']
    | bad hp' _ => rw [hp] at hp'; cases hp'
  | bad hp _ ih =>
    cases h' with
    | more hp' => rw [hp] at hp'; cases hp'
    | frame hp' _ => rw [hp] at hp'; cases hp'
    | bad _ h'' => exact ih h''

/-- The frames of a scan have positions. -/
theorem of_scans {xs r : List α} {ms : List μ} (h : Scans P cap xs ms r) (p : ℕ) :
    ∃ fs, Locates P cap p xs fs ∧ fs.map Prod.snd = ms := by
  induction h generalizing p with
  | more hp => exact ⟨[], .more hp, rfl⟩
  | frame hp _ ih =>
    obtain ⟨fs, hfs, hms⟩ := ih _
    exact ⟨_, .frame hp hfs, by rw [List.map_cons, hms]⟩
  | bad hp _ ih =>
    obtain ⟨fs, hfs, hms⟩ := ih _
    exact ⟨fs, .bad hp hfs, hms⟩

/-- From a position it reaches, a scan takes the frames at the reached positions
    from there on. -/
theorem mem_iff {xs ys : List α} {k p : ℕ} {fs : List (ℕ × μ)} (h : Locates P cap p ys fs)
    (hr : Reaches P cap xs k p) (hys : ys = xs.drop p) (q : ℕ) (m : μ) :
    (q, m) ∈ fs ↔
      p ≤ q ∧ ∃ k' n, Reaches P cap xs k' q ∧ P.parse ((xs.drop q).take cap) = .frame n m := by
  induction h generalizing k with
  | more hp =>
    subst hys
    refine iff_of_false List.not_mem_nil ?_
    rintro ⟨hle, k', n, hr', hq⟩
    rcases hle.lt_or_eq with hlt | rfl
    · exact (hr.next_le hr' hlt).1 hp
    · rw [hp] at hq
      cases hq
  | @frame p n ys m' fs hp _ ih =>
    subst hys
    rw [List.mem_cons, ih (hr.frame hp) (List.drop_drop ..)]
    constructor
    · rintro (heq | ⟨hle, hrest⟩)
      · cases heq
        exact ⟨le_rfl, k, n, hr, hp⟩
      · exact ⟨by omega, hrest⟩
    · rintro ⟨hle, k', n', hr', hq⟩
      rcases hle.lt_or_eq with hlt | rfl
      · exact Or.inr ⟨(hr.next_le hr' hlt).2 n m' hp, k', n', hr', hq⟩
      · rw [hp] at hq
        cases hq
        exact Or.inl rfl
  | @bad p ys fs hp _ ih =>
    subst hys
    rw [ih (hr.bad hp) (List.drop_drop ..)]
    constructor
    · rintro ⟨hle, hrest⟩
      exact ⟨by omega, hrest⟩
    · rintro ⟨hle, k', n', hr', hq⟩
      rcases hle.lt_or_eq with hlt | rfl
      · exact ⟨hlt, k', n', hr', hq⟩
      · rw [hp] at hq
        cases hq

end Locates

/-! ## What a scan makes of the stream -/

/-- A frame of a stream, and the elements skipped in front of it. -/
structure Stretch (α μ : Type*) where
  skipped : List α
  frame : List α
  msg : μ

/-- The stream made of `stretches` and of `tail` behind them. -/
def joinStretches (stretches : List (Stretch α μ)) (tail : List α) : List α :=
  (stretches.flatMap fun p => p.skipped ++ p.frame) ++ tail

@[simp] theorem joinStretches_nil (tail : List α) :
    joinStretches ([] : List (Stretch α μ)) tail = tail := rfl

@[simp] theorem joinStretches_cons (p : Stretch α μ) (stretches : List (Stretch α μ)) (tail : List α) :
    joinStretches (p :: stretches) tail = p.skipped ++ (p.frame ++ joinStretches stretches tail) := by
  simp [joinStretches]

/-- The parser refuses the stream `skipped ++ behind` at each element of
    `skipped`. -/
def Refuses (P : Parser α μ) (skipped behind : List α) : Prop :=
  ∀ i < skipped.length, P.parse (skipped.drop i ++ behind) = .bad

theorem Refuses.nil (behind : List α) : Refuses P [] behind := nofun

theorem Refuses.cons {x : α} {skipped behind : List α} (hx : P.parse (x :: (skipped ++ behind)) = .bad)
    (h : Refuses P skipped behind) : Refuses P (x :: skipped) behind := by
  intro i hi
  match i with
  | 0 => exact hx
  | i + 1 => exact h i (Nat.lt_of_succ_lt_succ hi)

/-- In front of `tail`, each frame of `stretches` is what the parser takes where it
    stands, and the parser refuses the elements skipped in front of it. -/
def Fits (P : Parser α μ) : List (Stretch α μ) → List α → Prop
  | [], _ => True
  | p :: stretches, tail =>
    Refuses P p.skipped (p.frame ++ joinStretches stretches tail) ∧
      P.parse (p.frame ++ joinStretches stretches tail) = .frame p.frame.length p.msg ∧
      Fits P stretches tail

/-- The verdict on the window is the verdict on the stream. -/
theorem Parser.frame_of_take {xs : List α} {n : ℕ} {m : μ} (h : P.parse (xs.take cap) = .frame n m) :
    P.parse xs = .frame n m := by
  have := P.frame_append (xs.drop cap) h
  rwa [List.take_append_drop] at this

theorem Parser.bad_of_take {xs : List α} (h : P.parse (xs.take cap) = .bad) : P.parse xs = .bad := by
  have := P.bad_append (xs.drop cap) h
  rwa [List.take_append_drop] at this

/-- A scan takes the stream apart into the frames of its messages, elements
    between them at which the parser finds no frame, and its residue. -/
theorem Scans.exists_stretches {xs r : List α} {ms : List μ} (h : Scans P cap xs ms r) :
    ∃ stretches skipped, xs = joinStretches stretches (skipped ++ r) ∧ ms = stretches.map Stretch.msg ∧
      Fits P stretches (skipped ++ r) ∧ (∀ p ∈ stretches, p.frame.length ≤ cap) ∧
      Refuses P skipped r := by
  induction h with
  | @more xs _ => exact ⟨[], [], rfl, rfl, trivial, nofun, .nil xs⟩
  | @frame xs r n m ms hp _ ih =>
    obtain ⟨stretches, skipped, hxs, hms, hfits, hcap, href⟩ := ih
    have hn := (P.frame_len hp).2
    rw [List.length_take] at hn
    have hlen : (xs.take n).length = n := by rw [List.length_take]; omega
    have hsplit : xs = xs.take n ++ joinStretches stretches (skipped ++ r) := by
      rw [← hxs, List.take_append_drop]
    refine ⟨⟨[], xs.take n, m⟩ :: stretches, skipped, ?_, by rw [List.map_cons, hms], ?_, ?_, href⟩
    · rw [joinStretches_cons, List.nil_append]
      exact hsplit
    · refine ⟨.nil _, ?_, hfits⟩
      show P.parse (xs.take n ++ joinStretches stretches (skipped ++ r)) = .frame (xs.take n).length m
      rw [← hsplit, hlen]
      exact Parser.frame_of_take hp
    · refine List.forall_mem_cons.mpr ⟨?_, hcap⟩
      show (xs.take n).length ≤ cap
      omega
  | @bad xs r ms hp _ ih =>
    obtain ⟨stretches, skipped, hxs, hms, hfits, hcap, href⟩ := ih
    have hbad := Parser.bad_of_take hp
    obtain ⟨x, xs, rfl⟩ := List.exists_cons_of_ne_nil (Parser.ne_nil_of_bad hbad)
    rw [List.drop_succ_cons, List.drop_zero] at hxs
    subst hxs
    -- the refused element belongs to what stands in front of the next frame
    match stretches with
    | [] => exact ⟨[], x :: skipped, rfl, hms, trivial, nofun, href.cons hbad⟩
    | p :: stretches =>
      rw [joinStretches_cons] at hbad
      exact ⟨⟨x :: p.skipped, p.frame, p.msg⟩ :: stretches, skipped,
        by simp only [joinStretches_cons, List.cons_append], hms, ⟨hfits.1.cons hbad, hfits.2⟩,
        List.forall_mem_cons.mpr (List.forall_mem_cons.mp hcap), href⟩

namespace Delivers

/-- Whatever the blocks are, the receiver yields the messages of the scan of
    the whole stream, keeps the first `cap` elements of its residue, and closes
    exactly when the residue does not fit the buffer. -/
theorem scans {buf xs buf' : List α} {ms : List μ} {closed : Bool}
    (h : Delivers P cap buf xs ms buf' closed) (hle : buf.length ≤ cap)
    (hmore : P.parse buf = .more) :
    ∃ r, Scans P cap (buf ++ xs) ms r ∧ buf' = r.take cap ∧ (closed = true ↔ cap < r.length) := by
  induction h with
  | idle buf =>
    refine ⟨buf, ?_, (List.take_of_length_le hle).symm, ?_⟩
    · rw [List.append_nil]
      exact .more (by rwa [List.take_of_length_le hle])
    · simpa using hle
  | @block buf b r rest buf' ms ms' closed _ hb hs _ ih =>
    have hlen : (buf ++ b).length ≤ cap := by simpa using hb
    have hr : r.length ≤ cap := hs.length_residue_le.trans hlen
    have hrm := hs.residue_more
    rw [List.take_of_length_le hr] at hrm
    obtain ⟨r', hr', hbuf, hclosed⟩ := ih hr hrm
    refine ⟨r', ?_, hbuf, hclosed⟩
    rw [← List.append_assoc]
    exact hs.append hlen hr'
  | @full buf rest hcap hrest =>
    refine ⟨buf ++ rest, .more ?_, ?_, ?_⟩
    · rwa [List.take_left' hcap]
    · rw [List.take_left' hcap]
    · have := List.length_pos_iff.mpr hrest
      simp only [true_iff, List.length_append]
      omega

/-- Two deliveries of one stream agree on everything a receiver can observe. -/
theorem unique {xs buf₁ buf₂ : List α} {ms₁ ms₂ : List μ} {closed₁ closed₂ : Bool}
    (h₁ : Delivers P cap [] xs ms₁ buf₁ closed₁) (h₂ : Delivers P cap [] xs ms₂ buf₂ closed₂) :
    ms₁ = ms₂ ∧ buf₁ = buf₂ ∧ closed₁ = closed₂ := by
  obtain ⟨r₁, hs₁, rfl, hc₁⟩ := h₁.scans (Nat.zero_le _) P.parse_nil
  obtain ⟨r₂, hs₂, rfl, hc₂⟩ := h₂.scans (Nat.zero_le _) P.parse_nil
  obtain ⟨rfl, rfl⟩ := hs₁.unique hs₂
  exact ⟨rfl, rfl, Bool.eq_iff_iff.mpr (hc₁.trans hc₂.symm)⟩

end Delivers

end LinuxFileManager.Lib

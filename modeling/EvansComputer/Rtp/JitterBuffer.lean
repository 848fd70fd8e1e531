import Mathlib

/-!
# The speaker side of a call

Frames go in by their numbers, of which a packet has the last 16 bits, and samples come out:
the frames in order, and where one is missing a faded repeat of the last or silence.  How much
is buffered before playout begins is measured and can be anything here, as can the fading.

A run keeps what it was given and what it has played.  `Holds` is what is so in every state: what
was accepted is what was played, is buffered or was dropped; what is buffered is still to
come; and the samples are the chunks one after another, in which each frame stands as it came.
-/

namespace EvansComputer.Rtp

/-- Samples at 16 kHz. -/
abbrev Samples := List Int16

/-- Samples per frame, where nothing is known of the frames. -/
def frameSamples : ℕ := 320

/-- How many ms of audio so many samples are, in 32 bits. -/
def toMs (samples : ℕ) : UInt32 := UInt32.ofNat (samples * 1000 / 16000)

/-- What happened to the packets a `JitterBuffer` was given. -/
structure JitterStats where
  received : ℕ := 0
  lost : ℕ := 0
  late : ℕ := 0
  duplicates : ℕ := 0
  concealed : ℕ := 0
  overflow : ℕ := 0
  deriving DecidableEq

/-- A jitter buffer for one stream.  The frames are in the order of their numbers. -/
structure JitterBuffer where
  minDelayMs : UInt32 := 40
  maxDelayMs : UInt32 := 160
  frames : List (ℕ × Samples) := []
  /-- The next number to play. -/
  next : Option ℕ := none
  /-- The highest number seen, for unwrapping. -/
  highest : Option ℕ := none
  playing : Bool := false
  out : Samples := []
  last : Samples := []
  concealedRun : ℕ := 0
  targetMs : UInt32 := 40
  stats : JitterStats := {}
  deriving DecidableEq

namespace JitterBuffer

/-- The number that has these 16 bits and is nearest to the highest so far. -/
def extend (b : JitterBuffer) (seq : UInt16) : ℕ :=
  match b.highest <|> b.next with
  | none => 65536 + seq.toNat
  | some r => ((r : ℤ) + (seq - UInt16.ofNat r).toInt16.toInt).toNat

/-- Samples in a frame. -/
def frameLen (b : JitterBuffer) : ℕ :=
  if b.last = [] then (b.frames.head?).elim frameSamples (·.2.length) else b.last.length

/-- Milliseconds in a frame. -/
def frameMs (b : JitterBuffer) : UInt32 := toMs b.frameLen

/-- Audio waiting, ms. -/
def bufferedMs (b : JitterBuffer) : UInt32 := toMs (b.frames.map (·.2.length)).sum

/-- A frame goes in before the first with a higher number. -/
def insert (x : ℕ × Samples) : List (ℕ × Samples) → List (ℕ × Samples)
  | [] => [x]
  | y :: l => if x.1 < y.1 then x :: y :: l else y :: insert x l

/-- Frames are dropped until what is buffered is as much as is to be played from.  There is a turn
for each frame. -/
def trim : ℕ → JitterBuffer → JitterBuffer
  | 0, b => b
  | turns + 1, b =>
    if b.bufferedMs > max b.targetMs b.minDelayMs then
      match b.frames with
      | [] => b
      | (k, _) :: frames =>
        trim turns { b with
          frames
          stats := { b.stats with overflow := b.stats.overflow + 1 }
          next := if b.next.any (· ≤ k) then some (k + 1) else b.next }
    else b

/-- A frame that is neither late nor there already. -/
def accept (b : JitterBuffer) (ext : ℕ) (pcm : Samples) : JitterBuffer :=
  { b with
    stats := { b.stats with received := b.stats.received + 1 }
    frames := insert (ext, pcm) b.frames
    highest := some (b.highest.elim ext (max · ext)) }

/-- A packet's decoded frame arrived. -/
def push (b : JitterBuffer) (seq : UInt16) (pcm : Samples) : JitterBuffer :=
  if pcm = [] then b
  else
    let ext := b.extend seq
    if b.next.any (ext < ·) then { b with stats := { b.stats with late := b.stats.late + 1 } }
    else if b.frames.any (·.1 = ext) then
      { b with stats := { b.stats with duplicates := b.stats.duplicates + 1 } }
    else
      let b := b.accept ext pcm
      -- grown far past the maximum delay: catch up
      if b.bufferedMs > b.maxDelayMs + 2 * b.frameMs then b.trim b.frames.length else b

/-- A frame of silence. -/
def silence (b : JitterBuffer) : Samples := List.replicate b.frameLen 0

/-- A faded repeat of the last frame, or silence.  `fade len i` is the fading at place `i`. -/
def conceal (fade : ℕ → ℕ → Int16 → Int16) (b : JitterBuffer) : JitterBuffer × Samples :=
  let b := { b with concealedRun := b.concealedRun + 1 }
  if b.concealedRun > 1 ∨ b.last = [] then (b, b.silence)
  else
    ({ b with stats := { b.stats with concealed := b.stats.concealed + 1 } },
      b.last.mapIdx (fade b.last.length))

/-- The frame whose turn it is, while playing. -/
def playNext (fade : ℕ → ℕ → Int16 → Int16) (b : JitterBuffer) : JitterBuffer × Samples :=
  let n := b.next.getD 0
  match b.frames.find? (·.1 = n) with
  | some (k, f) =>
    ({ b with frames := b.frames.erase (k, f), next := some (n + 1), concealedRun := 0, last := f },
      f)
  | none =>
    if b.frames = [] then
      -- ran dry: prime again
      let b := { b with playing := false, concealedRun := 1 }
      (b, b.silence)
    else
      { b with stats := { b.stats with lost := b.stats.lost + 1 }, next := some (n + 1) }.conceal
        fade

/-- The next samples.  `target` is the delay that a start of the playout is to have. -/
def nextFrame (fade : ℕ → ℕ → Int16 → Int16) (target : UInt32) (b : JitterBuffer) :
    JitterBuffer × Samples :=
  if b.playing then b.playNext fade
  else
    let b := { b with targetMs := target }
    match b.frames.head? with
    | none => (b, b.silence)
    | some (first, _) =>
      if b.bufferedMs < b.targetMs then (b, b.silence)
      else
        playNext fade { b with
          stats := { b.stats with lost := b.stats.lost + b.next.elim 0 (first - ·) }
          next := some first
          playing := true }

/-- The frame that `nextFrame` is going to play, where it plays one. -/
def due (target : UInt32) (b : JitterBuffer) : Option (ℕ × Samples) :=
  if b.playing then b.frames.find? (·.1 = b.next.getD 0)
  else if b.bufferedMs < target then none
  else b.frames.head?

/-- Until `n` samples are out: the loop of `pull`, with what each turn has put out.  It does not end
within no turns. -/
def fill (fade : ℕ → ℕ → Int16 → Int16) (n : ℕ) :
    ℕ → (ℕ → UInt32) → JitterBuffer → Option (JitterBuffer × List (Option ℕ × Samples))
  | turns, targets, b =>
    if b.out.length < n then
      match turns with
      | 0 => none
      | turns + 1 =>
        let (b', f) := b.nextFrame fade (targets 0)
        (fill fade n turns (fun k => targets (k + 1)) { b' with out := b'.out ++ f }).map
          fun (b'', chunks) =>
          (b'', ((b.due (targets 0)).map (·.1), f) :: chunks)
    else some (b, [])

/-- `n` samples, within so many turns. -/
def pull (fade : ℕ → ℕ → Int16 → Int16) (turns : ℕ) (targets : ℕ → UInt32)
    (b : JitterBuffer) (n : ℕ) :
    Option (JitterBuffer × Samples) :=
  (b.fill fade n turns targets).map fun (b, _) => ({ b with out := b.out.drop n }, b.out.take n)

/-! ## What a buffer is -/

/-- **The invariant of a buffer**: the frames are in order and have samples, those that are
buffered are still to come, and none is above the highest. -/
structure Sound (b : JitterBuffer) : Prop where
  sorted : b.frames.Pairwise fun x y => x.1 < y.1
  filled : ∀ x ∈ b.frames, x.2 ≠ []
  coming : ∀ n ∈ b.next, ∀ x ∈ b.frames, n ≤ x.1
  nextHighest : ∀ n ∈ b.next, ∃ h ∈ b.highest, n ≤ h + 1
  framesHighest : ∀ x ∈ b.frames, ∃ h ∈ b.highest, x.1 ≤ h
  playing : b.playing = true → b.next.isSome

variable {b : JitterBuffer} {x : ℕ × Samples} {l : List (ℕ × Samples)}

theorem mem_insert {y : ℕ × Samples} : y ∈ insert x l ↔ y = x ∨ y ∈ l := by
  induction l with
  | nil => rw [insert, List.mem_singleton, or_iff_left List.not_mem_nil]
  | cons z l ih =>
    rw [insert]
    split_ifs
    · exact List.mem_cons
    · rw [List.mem_cons, ih, List.mem_cons]
      exact or_left_comm

theorem perm_insert (x : ℕ × Samples) (l : List (ℕ × Samples)) : (insert x l).Perm (x :: l) := by
  induction l with
  | nil => exact .refl _
  | cons y l ih =>
    rw [insert]
    split_ifs
    · exact .refl _
    · exact (ih.cons y).trans (.swap x y l)

theorem sorted_insert (h : l.Pairwise fun x y => x.1 < y.1) (hx : ∀ y ∈ l, y.1 ≠ x.1) :
    (insert x l).Pairwise fun x y => x.1 < y.1 := by
  induction l with
  | nil => exact List.pairwise_singleton _ _
  | cons y l ih =>
    rw [List.pairwise_cons] at h
    have hy := hx y List.mem_cons_self
    rw [insert]
    split_ifs with hlt
    · refine List.pairwise_cons.mpr ⟨fun z hz => ?_, List.pairwise_cons.mpr h⟩
      rcases List.mem_cons.mp hz with rfl | hz
      · exact hlt
      · exact hlt.trans (h.1 z hz)
    · refine List.pairwise_cons.mpr
        ⟨fun z hz => ?_, ih h.2 fun z hz => hx z (List.mem_cons_of_mem _ hz)⟩
      rcases mem_insert.mp hz with rfl | hz
      · omega
      · exact h.1 z hz

theorem frameLen_pos (h : ∀ x ∈ b.frames, x.2 ≠ []) : 0 < b.frameLen := by
  unfold frameLen
  split_ifs with hlast
  · cases hframes : b.frames with
    | nil => exact Nat.succ_pos _
    | cons x l =>
      have hx := h x (hframes ▸ List.mem_cons_self)
      exact List.length_pos_iff.mpr hx
  · exact List.length_pos_iff.mpr hlast

theorem silence_ne_nil (h : ∀ x ∈ b.frames, x.2 ≠ []) : b.silence ≠ [] := by
  rw [silence, ← List.length_pos_iff, List.length_replicate]
  exact frameLen_pos h

/-! ## A turn of the loop -/

/-- **What a turn does**: the frame that was due is the one that is played, and goes. -/
structure Turn (b : JitterBuffer) (o : Option (ℕ × Samples)) (b' : JitterBuffer) (f : Samples) :
    Prop where
  sound : b'.Sound
  filled : f ≠ []
  samples : ∀ x ∈ o, f = x.2
  frames : b.frames.Perm (o.toList ++ b'.frames)
  next : ∀ n ∈ b.next, ∃ n' ∈ b'.next, n ≤ n'
  due : ∀ x ∈ o, b'.next = some (x.1 + 1) ∧ ∀ n ∈ b.next, n ≤ x.1
  out : b'.out = b.out
  received : b'.stats.received = b.stats.received
  overflow : b'.stats.overflow = b.stats.overflow
  highest : b'.highest = b.highest

theorem turn_of_same {b' : JitterBuffer} {f : Samples} (h : b.Sound) (hf : f ≠ [])
    (hframes : b'.frames = b.frames) (hhighest : b'.highest = b.highest) (hnext : b'.next = b.next)
    (hplaying : b'.playing = true → b.playing = true) (hout : b'.out = b.out)
    (hreceived : b'.stats.received = b.stats.received)
    (hoverflow : b'.stats.overflow = b.stats.overflow) : b.Turn none b' f := by
  refine ⟨⟨?_, ?_, ?_, ?_, ?_, ?_⟩, hf, fun x hx => (nomatch hx), ?_, ?_, fun x hx => (nomatch hx),
    hout, hreceived,
    hoverflow, hhighest⟩
  · rw [hframes]
    exact h.sorted
  · rw [hframes]
    exact h.filled
  · rw [hframes, hnext]
    exact h.coming
  · rw [hnext, hhighest]
    exact h.nextHighest
  · rw [hframes, hhighest]
    exact h.framesHighest
  · rw [hnext]
    exact fun hp => h.playing (hplaying hp)
  · rw [hframes]
    exact .refl _
  · rw [hnext]
    exact fun n hn => ⟨n, hn, le_refl n⟩

theorem conceal_spec (fade : ℕ → ℕ → Int16 → Int16) (h : ∀ x ∈ b.frames, x.2 ≠ []) :
    (b.conceal fade).2 ≠ [] ∧ (b.conceal fade).1.frames = b.frames ∧
    (b.conceal fade).1.highest = b.highest ∧
      (b.conceal fade).1.next = b.next ∧ (b.conceal fade).1.playing = b.playing ∧
      (b.conceal fade).1.out = b.out ∧
      (b.conceal fade).1.stats.received = b.stats.received ∧
      (b.conceal fade).1.stats.overflow = b.stats.overflow := by
  unfold conceal
  dsimp only
  split_ifs with hsilent
  · exact ⟨silence_ne_nil (b := { b with concealedRun := b.concealedRun + 1 }) h, rfl, rfl, rfl,
      rfl, rfl, rfl, rfl⟩
  · refine ⟨?_, rfl, rfl, rfl, rfl, rfl, rfl, rfl⟩
    rw [← List.length_pos_iff, List.length_mapIdx]
    exact List.length_pos_iff.mpr (not_or.mp hsilent).2

theorem nextHighest_succ {n : ℕ} (h : b.Sound) (hx : x ∈ b.frames) (hle : n ≤ x.1) :
    ∃ h ∈ b.highest, n + 1 ≤ h + 1 := by
  obtain ⟨m, hm, hxm⟩ := h.framesHighest x hx
  exact ⟨m, hm, Nat.succ_le_succ (hle.trans hxm)⟩

theorem playNext_of_found (fade : ℕ → ℕ → Int16 → Int16)
    {n : ℕ} {f : Samples} (hn : b.next = some n)
    (hfind : b.frames.find? (·.1 = n) = some (n, f)) : b.playNext fade =
      ({ b with
          frames := b.frames.erase (n, f), next := some (n + 1), concealedRun := 0,
          last := f }, f) := by
  unfold playNext
  rw [hn, Option.getD_some]
  dsimp only
  rw [hfind]

theorem playNext_of_dry (fade : ℕ → ℕ → Int16 → Int16) (hempty : b.frames = []) : b.playNext fade =
    ({ b with playing := false, concealedRun := 1 }, silence
      { b with playing := false, concealedRun := 1 }) := by
  unfold playNext
  dsimp only
  rw [hempty]
  rfl

theorem playNext_of_lost (fade : ℕ → ℕ → Int16 → Int16) {n : ℕ} (hn : b.next = some n)
    (hfind : b.frames.find? (·.1 = n) = none) (hempty : b.frames ≠ []) : b.playNext fade =
      { b with stats := { b.stats with lost := b.stats.lost + 1 }, next := some (n + 1) }.conceal
        fade := by
  unfold playNext
  rw [hn, Option.getD_some]
  dsimp only
  rw [hfind]
  exact if_neg hempty

/-- **The frame whose turn it is.** -/
theorem turn_playNext (fade : ℕ → ℕ → Int16 → Int16) (h : b.Sound) {n : ℕ} (hn : b.next = some n) :
    b.Turn (b.frames.find? (·.1 = n)) (b.playNext fade).1 (b.playNext fade).2 := by
  cases hfind : b.frames.find? (·.1 = n) with
  | some y =>
    obtain ⟨k, f⟩ := y
    have hmem := List.mem_of_find?_eq_some hfind
    obtain rfl : k = n := by simpa using List.find?_some hfind
    rw [playNext_of_found fade hn hfind]
    have hperm := List.perm_cons_erase hmem
    have hsub : (b.frames.erase (k, f)).Sublist b.frames := List.erase_sublist
    -- the others come later, as no two have one number
    have hlater : ∀ y ∈ b.frames.erase (k, f), k + 1 ≤ y.1 := by
      intro y hy
      have hnodup : (b.frames.map (·.1)).Nodup :=
        List.pairwise_map.mpr (h.sorted.imp fun hlt => hlt.ne)
      have hne := (List.nodup_cons.mp ((hperm.map (·.1)).nodup_iff.mp hnodup)).1
      have hle := h.coming k hn y (hsub.subset hy)
      refine Nat.succ_le_of_lt (Nat.lt_of_le_of_ne hle fun heq => hne ?_)
      exact List.mem_map.mpr ⟨y, hy, heq.symm⟩
    refine ⟨⟨h.sorted.sublist hsub, fun y hy => h.filled y (hsub.subset hy), ?_, ?_,
      fun y hy => h.framesHighest y (hsub.subset hy), fun _ => rfl⟩, h.filled _ hmem, ?_, hperm, ?_,
        ?_, rfl, rfl, rfl,
      rfl⟩
    · rintro m ⟨⟩
      exact hlater
    · rintro m ⟨⟩
      exact nextHighest_succ (b := b) h hmem (le_refl k)
    · rintro y ⟨⟩
      rfl
    · rintro m hm
      rw [hn] at hm
      cases hm
      exact ⟨k + 1, rfl, Nat.le_succ k⟩
    · rintro y ⟨⟩
      refine ⟨rfl, fun m hm => ?_⟩
      rw [hn] at hm
      cases hm
      exact le_refl k
  | none =>
    by_cases hempty : b.frames = []
    · rw [playNext_of_dry fade hempty]
      exact turn_of_same h
        (silence_ne_nil (b := { b with playing := false, concealedRun := 1 }) h.filled) rfl rfl rfl
        (fun hp => nomatch hp) rfl rfl rfl
    have hmissing : ∀ y ∈ b.frames, n + 1 ≤ y.1 := by
      intro y hy
      have hne : ¬ y.1 = n := fun heq => List.find?_eq_none.mp hfind y hy (decide_eq_true heq)
      exact Nat.succ_le_of_lt (Nat.lt_of_le_of_ne (h.coming n hn y hy) (Ne.symm hne))
    obtain ⟨y, hy⟩ := List.exists_mem_of_ne_nil _ hempty
    rw [playNext_of_lost fade hn hfind hempty]
    have hlost : Sound { b with
        stats := { b.stats with lost := b.stats.lost + 1 }, next := some (n + 1) } := by
      refine ⟨h.sorted, h.filled, ?_, ?_, h.framesHighest, fun _ => rfl⟩
      · rintro m ⟨⟩
        exact hmissing
      · rintro m ⟨⟩
        exact nextHighest_succ (b := b) h hy ((Nat.le_succ n).trans (hmissing y hy))
    obtain ⟨hf, hframes, hhighest, hnext, hplaying, hout, hreceived, hoverflow⟩ :=
      conceal_spec fade hlost.filled
    have hturn := turn_of_same hlost hf hframes hhighest hnext
      (fun hp => hplaying ▸ hp) hout hreceived hoverflow
    refine ⟨hturn.sound, hf, fun x hx => (nomatch hx), hturn.frames, ?_, fun x hx => (nomatch hx),
      hout, hreceived,
      hoverflow, hhighest⟩
    intro m hm
    rw [hn] at hm
    cases hm
    exact ⟨n + 1, hnext, Nat.le_succ n⟩

/-- The buffer where the playout starts, with its first frame. -/
def started (b : JitterBuffer) (target : UInt32) (first : ℕ) : JitterBuffer :=
  { b with
    targetMs := target
    stats := { b.stats with lost := b.stats.lost + b.next.elim 0 (first - ·) }
    next := some first
    playing := true }

theorem nextFrame_of_empty (fade : ℕ → ℕ → Int16 → Int16) (target : UInt32)
    (hplaying : ¬ b.playing = true) (hframes : b.frames.head? = none) :
    b.nextFrame fade target =
      ({ b with targetMs := target }, silence { b with targetMs := target }) := by
  unfold nextFrame
  rw [if_neg hplaying]
  dsimp only
  rw [hframes]

theorem nextFrame_of_first (fade : ℕ → ℕ → Int16 → Int16) (target : UInt32)
    (hplaying : ¬ b.playing = true) (hframes : b.frames.head? = some x) :
    b.nextFrame fade target =
      if b.bufferedMs <
        target then ({ b with targetMs := target }, silence { b with targetMs := target })
      else (b.started target x.1).playNext fade := by
  unfold nextFrame
  rw [if_neg hplaying]
  dsimp only
  rw [hframes]
  rfl

/-- **The next samples.** -/
theorem turn_nextFrame (fade : ℕ → ℕ → Int16 → Int16) (target : UInt32) (h : b.Sound) :
    b.Turn (b.due target) (b.nextFrame fade target).1 (b.nextFrame fade target).2 := by
  have hsilent :
    b.Turn none { b with targetMs := target } (silence { b with targetMs := target }) :=
    turn_of_same h (silence_ne_nil (b := { b with targetMs := target }) h.filled) rfl rfl rfl
      (fun hp => hp) rfl rfl rfl
  by_cases hplaying : b.playing = true
  · obtain ⟨n, hn⟩ := Option.isSome_iff_exists.mp (h.playing hplaying)
    unfold nextFrame due
    rw [if_pos hplaying, if_pos hplaying, hn, Option.getD_some]
    exact turn_playNext fade h hn
  unfold due
  rw [if_neg hplaying]
  cases hframes : b.frames with
  | nil =>
    rw [nextFrame_of_empty fade target hplaying (by rw [hframes]; rfl), List.head?_nil, ite_self]
    exact hsilent
  | cons y l =>
    obtain ⟨first, f⟩ := y
    have hhead : b.frames.head? = some (first, f) := by rw [hframes]; rfl
    rw [← hframes, nextFrame_of_first fade target hplaying hhead]
    by_cases hlow : b.bufferedMs < target
    · rw [if_pos hlow, if_pos hlow]
      exact hsilent
    rw [if_neg hlow, if_neg hlow]
    have hmem : (first, f) ∈ b.frames := hframes ▸ List.mem_cons_self
    have hleast : ∀ y ∈ b.frames, first ≤ y.1 := by
      intro y hy
      have hsorted := h.sorted
      rw [hframes] at hsorted hy
      rcases List.mem_cons.mp hy with rfl | hy
      · exact le_refl _
      · exact ((List.pairwise_cons.mp hsorted).1 y hy).le
    have hstarted : (b.started target first).Sound := by
      refine ⟨h.sorted, h.filled, ?_, ?_, h.framesHighest, fun _ => rfl⟩
      · rintro m ⟨⟩
        exact hleast
      · rintro m ⟨⟩
        obtain ⟨n, hn, hle⟩ := h.framesHighest _ hmem
        exact ⟨n, hn, hle.trans (Nat.le_succ n)⟩
    have hturn := turn_playNext fade hstarted (n := first) rfl
    have hfind : (b.started target first).frames.find? (·.1 = first) = b.frames.head? := by
      change b.frames.find? (·.1 = first) = _
      rw [hframes, List.find?_cons_of_pos (by simp)]
      rfl
    rw [hfind] at hturn
    have hbefore : ∀ n ∈ b.next, n ≤ first := fun n hn => h.coming n hn _ hmem
    refine ⟨hturn.sound, hturn.filled, hturn.samples, hturn.frames, fun n hn => ?_,
      fun x hx => ?_, hturn.out,
      hturn.received, hturn.overflow, hturn.highest⟩
    · obtain ⟨n', hn', hle⟩ := hturn.next first rfl
      exact ⟨n', hn', (hbefore n hn).trans hle⟩
    · obtain ⟨hnext, hle⟩ := hturn.due x hx
      exact ⟨hnext, fun n hn => (hbefore n hn).trans (hle first rfl)⟩

/-! ## A call of `pull` -/

/-- The frame that a chunk is, where it is one. -/
def frameOf (c : Option ℕ × Samples) : Option (ℕ × Samples) := c.1.map fun n => (n, c.2)

/-- The frames among the chunks. -/
def played (chunks : List (Option ℕ × Samples)) : List (ℕ × Samples) := chunks.filterMap frameOf

/-- **What the loop does**: the chunks go out one after another, and the frames among them, in
order, were buffered. -/
structure Filled (b : JitterBuffer) (chunks : List (Option ℕ × Samples)) (b' : JitterBuffer) :
    Prop where
  sound : b'.Sound
  out : b'.out = b.out ++ chunks.flatMap (·.2)
  frames : b.frames.Perm (played chunks ++ b'.frames)
  next : ∀ n ∈ b.next, ∃ n' ∈ b'.next, n ≤ n'
  ordered : (played chunks).Pairwise fun x y => x.1 < y.1
  later : ∀ x ∈ played chunks, (∀ n ∈ b.next, n ≤ x.1) ∧ ∃ n ∈ b'.next, x.1 < n
  received : b'.stats.received = b.stats.received
  overflow : b'.stats.overflow = b.stats.overflow
  highest : b'.highest = b.highest

theorem filled_nil (h : b.Sound) : b.Filled [] b :=
  ⟨h, (List.append_nil _).symm, .refl _, fun n hn => ⟨n, hn, le_refl n⟩, .nil,
    fun _ hx => absurd hx List.not_mem_nil,
    rfl, rfl, rfl⟩

theorem Sound.withOut (h : b.Sound) (out : Samples) : Sound { b with out } :=
  ⟨h.sorted, h.filled, h.coming, h.nextHighest, h.framesHighest, h.playing⟩

theorem Turn.cons {o : Option (ℕ × Samples)} {b₁ b' : JitterBuffer} {f : Samples}
    {chunks : List (Option ℕ × Samples)} (h : b.Turn o b₁ f)
    (hrest : Filled { b₁ with out := b₁.out ++ f } chunks b') :
    b.Filled ((o.map (·.1), f) :: chunks) b' := by
  have hchunk : frameOf (o.map (·.1), f) = o := by
    cases o with
    | none => rfl
    | some x => exact congrArg some (Prod.ext rfl (h.samples x rfl))
  have hplayed : played ((o.map (·.1), f) :: chunks) = o.toList ++ played chunks := by
    unfold played
    cases o with
    | none => exact List.filterMap_cons_none hchunk
    | some x => exact List.filterMap_cons_some hchunk
  refine ⟨hrest.sound, ?_, ?_, fun n hn => ?_, ?_, fun x hx => ?_, hrest.received.trans h.received,
    hrest.overflow.trans h.overflow, hrest.highest.trans h.highest⟩
  · rw [hrest.out, List.flatMap_cons, ← List.append_assoc]
    exact congrArg (· ++ f ++ _) h.out
  · rw [hplayed, List.append_assoc]
    exact h.frames.trans (hrest.frames.append_left _)
  · obtain ⟨n₁, hn₁, hle⟩ := h.next n hn
    obtain ⟨n', hn', hle'⟩ := hrest.next n₁ hn₁
    exact ⟨n', hn', hle.trans hle'⟩
  · rw [hplayed]
    refine List.pairwise_append.mpr ⟨?_, hrest.ordered, fun x hx y hy => ?_⟩
    · cases o with
      | none => exact .nil
      | some x => exact List.pairwise_singleton _ _
    · obtain ⟨hnext, -⟩ := h.due x (Option.mem_toList.mp hx)
      exact (hrest.later y hy).1 _ hnext
  · rw [hplayed] at hx
    rcases List.mem_append.mp hx with hx | hx
    · obtain ⟨hnext, hle⟩ := h.due x (Option.mem_toList.mp hx)
      obtain ⟨n', hn', hle'⟩ := hrest.next _ hnext
      exact ⟨hle, n', hn', hle'⟩
    · obtain ⟨hle, hlt⟩ := hrest.later x hx
      refine ⟨fun n hn => ?_, hlt⟩
      obtain ⟨n₁, hn₁, hle₁⟩ := h.next n hn
      exact hle₁.trans (hle n₁ hn₁)

/-- **The loop ends**, as each turn puts out a sample at least. -/
theorem filled_fill (fade : ℕ → ℕ → Int16 → Int16) {n turns : ℕ} (targets : ℕ → UInt32)
    (h : b.Sound) (hturns : n ≤ b.out.length + turns) :
    ∃ b' chunks, b.fill fade n turns targets = some (b', chunks) ∧ n ≤ b'.out.length ∧
      b.Filled chunks b' := by
  induction turns generalizing b targets with
  | zero =>
    refine ⟨b, [], ?_, hturns, filled_nil h⟩
    rw [fill]
    exact if_neg (not_lt.mpr hturns)
  | succ turns ih =>
    by_cases hlt : b.out.length < n
    · have hturn := turn_nextFrame fade (targets 0) h
      have hsound := hturn.sound.withOut
        ((b.nextFrame fade (targets 0)).1.out ++ (b.nextFrame fade (targets 0)).2)
      have hpos := List.length_pos_iff.mpr hturn.filled
      have hroom :
        n ≤ ((b.nextFrame fade (targets 0)).1.out ++ (b.nextFrame fade (targets 0)).2).length +
        turns := by
        rw [List.length_append, hturn.out]
        omega
      obtain ⟨b', chunks, hfill, hout, hfilled⟩ := ih (fun k => targets (k + 1)) hsound hroom
      refine ⟨b', _, ?_, hout, hturn.cons hfilled⟩
      rw [fill, if_pos hlt]
      dsimp only
      rw [hfill]
      rfl
    · refine ⟨b, [], ?_, not_lt.mp hlt, filled_nil h⟩
      rw [fill, if_neg hlt]

/-! ## A call of `push` -/

/-- **What a trimming does**: the first frames go. -/
structure Trimmed (b b' : JitterBuffer) : Prop where
  sound : b'.Sound
  frames : ∃ dropped, b.frames = dropped ++ b'.frames ∧
    b'.stats.overflow = b.stats.overflow + dropped.length
  next : ∀ n ∈ b.next, ∃ n' ∈ b'.next, n ≤ n'
  received : b'.stats.received = b.stats.received
  highest : b'.highest = b.highest
  out : b'.out = b.out

theorem trimmed_refl (h : b.Sound) : b.Trimmed b :=
  ⟨h, ⟨[], rfl, rfl⟩, fun n hn => ⟨n, hn, le_refl n⟩, rfl, rfl, rfl⟩

/-- The buffer without its first frame. -/
def dropFirst (b : JitterBuffer) (k : ℕ) (frames : List (ℕ × Samples)) : JitterBuffer :=
  { b with
    frames
    stats := { b.stats with overflow := b.stats.overflow + 1 }
    next := if b.next.any (· ≤ k) then some (k + 1) else b.next }

theorem trimmed_dropFirst {k : ℕ} {f : Samples} (h : b.Sound) (hframes : b.frames = (k, f) :: l) :
    b.Trimmed (b.dropFirst k l) := by
  have hsorted := hframes ▸ h.sorted
  rw [List.pairwise_cons] at hsorted
  have hsub : ∀ x ∈ l, x ∈ b.frames := fun x hx => hframes ▸ List.mem_cons_of_mem _ hx
  have hnext : (b.dropFirst k l).next = some (k + 1) ∧ (∀ n ∈ b.next, n ≤ k) ∨
    (b.dropFirst k l).next = b.next := by
    unfold dropFirst
    dsimp only
    split_ifs with hany
    · obtain ⟨n, hn, hle⟩ := Option.any_eq_true _ _ |>.mp hany
      refine .inl ⟨rfl, fun m hm => ?_⟩
      rw [hn] at hm
      cases hm
      exact of_decide_eq_true hle
    · exact .inr rfl
  refine ⟨⟨hsorted.2, fun x hx => h.filled x (hsub x hx), fun n hn x hx => ?_, fun n hn => ?_,
    fun x hx => h.framesHighest x (hsub x hx), fun hp => ?_⟩, ⟨[(k, f)], hframes, rfl⟩,
      fun n hn => ?_, rfl, rfl, rfl⟩
  · rcases hnext with ⟨heq, -⟩ | heq
    · rw [heq] at hn
      cases hn
      exact hsorted.1 x hx
    · exact h.coming n (heq ▸ hn) x (hsub x hx)
  · rcases hnext with ⟨heq, -⟩ | heq
    · rw [heq] at hn
      cases hn
      obtain ⟨m, hm, hle⟩ := h.framesHighest (k, f) (hframes ▸ List.mem_cons_self)
      exact ⟨m, hm, Nat.succ_le_succ hle⟩
    · exact h.nextHighest n (heq ▸ hn)
  · rcases hnext with ⟨heq, -⟩ | heq
    · rw [heq]
      rfl
    · rw [heq]
      exact h.playing hp
  · rcases hnext with ⟨heq, hle⟩ | heq
    · exact ⟨k + 1, heq, (hle n hn).trans (Nat.le_succ k)⟩
    · exact ⟨n, heq ▸ hn, le_refl n⟩

theorem Trimmed.trans {b' b'' : JitterBuffer} (h : b.Trimmed b') (h' : b'.Trimmed b'') :
    b.Trimmed b'' := by
  obtain ⟨dropped, hframes, hoverflow⟩ := h.frames
  obtain ⟨dropped', hframes', hoverflow'⟩ := h'.frames
  refine ⟨h'.sound, ⟨dropped ++ dropped', ?_, ?_⟩, fun n hn => ?_, h'.received.trans h.received,
    h'.highest.trans h.highest, h'.out.trans h.out⟩
  · rw [hframes, hframes', List.append_assoc]
  · rw [hoverflow', hoverflow, List.length_append, Nat.add_assoc]
  · obtain ⟨n', hn', hle⟩ := h.next n hn
    obtain ⟨n'', hn'', hle'⟩ := h'.next n' hn'
    exact ⟨n'', hn'', hle.trans hle'⟩

theorem trimmed_trim (h : b.Sound) (turns : ℕ) : b.Trimmed (b.trim turns) := by
  induction turns generalizing b with
  | zero => exact trimmed_refl h
  | succ turns ih =>
    rw [trim]
    split_ifs
    · split
      · exact trimmed_refl h
      · rename_i k f l hframes
        have hdropped := trimmed_dropFirst h hframes
        exact hdropped.trans (ih hdropped.sound)
    · exact trimmed_refl h

theorem Sound.accept {ext : ℕ} {pcm : Samples} (h : b.Sound) (hpcm : pcm ≠ [])
    (hlate : ∀ n ∈ b.next, n ≤ ext) (hnew : ∀ x ∈ b.frames, x.1 ≠ ext) :
    (b.accept ext pcm).Sound := by
  have hhighest : ∀ m ∈ b.highest, ∃ m' ∈ (b.accept ext pcm).highest, m ≤ m' := by
    intro m hm
    refine ⟨max m ext, ?_, le_max_left _ _⟩
    unfold JitterBuffer.accept
    rw [hm]
    rfl
  refine ⟨sorted_insert h.sorted hnew, fun x hx => ?_, fun n hn x hx => ?_, fun n hn => ?_,
    fun x hx => ?_, h.playing⟩
  · rcases mem_insert.mp hx with rfl | hx
    · exact hpcm
    · exact h.filled x hx
  · rcases mem_insert.mp hx with rfl | hx
    · exact hlate n hn
    · exact h.coming n hn x hx
  · obtain ⟨m, hm, hle⟩ := h.nextHighest n hn
    obtain ⟨m', hm', hle'⟩ := hhighest m hm
    exact ⟨m', hm', hle.trans (Nat.succ_le_succ hle')⟩
  · rcases mem_insert.mp hx with rfl | hx
    · unfold JitterBuffer.accept
      cases b.highest with
      | none => exact ⟨ext, rfl, le_refl _⟩
      | some m => exact ⟨max m ext, rfl, le_max_right _ _⟩
    · obtain ⟨m, hm, hle⟩ := h.framesHighest x hx
      obtain ⟨m', hm', hle'⟩ := hhighest m hm
      exact ⟨m', hm', hle.trans hle'⟩

/-- **What `push` does**: the frame is left out, and not counted as received, or it is buffered and
frames are dropped. -/
structure Pushed (b : JitterBuffer) (ext : ℕ) (pcm : Samples) (b' : JitterBuffer) : Prop where
  sound : b'.Sound
  next : ∀ n ∈ b.next, ∃ n' ∈ b'.next, n ≤ n'
  out : b'.out = b.out
  frames : b'.stats.received = b.stats.received ∧ b'.frames = b.frames ∧
    b'.stats.overflow = b.stats.overflow ∨
    b'.stats.received = b.stats.received + 1 ∧ ∃ dropped,
      ((ext, pcm) :: b.frames).Perm (b'.frames ++ dropped) ∧
      b'.stats.overflow = b.stats.overflow + dropped.length
  highest : pcm ≠ [] → b'.highest = some (b.highest.elim ext (max · ext))

theorem pushed_push (h : b.Sound) (seq : UInt16) (pcm : Samples) :
    b.Pushed (b.extend seq) pcm (b.push seq pcm) := by
  unfold push
  by_cases hpcm : pcm = []
  · rw [if_pos hpcm]
    exact ⟨h, fun n hn => ⟨n, hn, le_refl n⟩, rfl, .inl ⟨rfl, rfl, rfl⟩, fun hne => absurd hpcm hne⟩
  rw [if_neg hpcm]
  dsimp only
  generalize b.extend seq = ext
  by_cases hlate : b.next.any (ext < ·) = true
  · rw [if_pos hlate]
    obtain ⟨n, hn, hlt⟩ := Option.any_eq_true _ _ |>.mp hlate
    obtain ⟨m, hm, hle⟩ := h.nextHighest n hn
    refine ⟨⟨h.sorted, h.filled, h.coming, h.nextHighest, h.framesHighest, h.playing⟩,
      fun n hn => ⟨n, hn, le_refl n⟩,
      rfl, .inl ⟨rfl, rfl, rfl⟩, fun _ => ?_⟩
    have hext : ext ≤ m := Nat.le_of_lt_succ ((of_decide_eq_true hlt : ext < n).trans_le hle)
    rw [hm, Option.elim_some, max_eq_left hext]
  rw [if_neg hlate]
  by_cases hthere : (b.frames.any (·.1 = ext)) = true
  · rw [if_pos hthere]
    obtain ⟨x, hx, heq⟩ := List.any_eq_true.mp hthere
    obtain ⟨m, hm, hle⟩ := h.framesHighest x hx
    refine ⟨⟨h.sorted, h.filled, h.coming, h.nextHighest, h.framesHighest, h.playing⟩,
      fun n hn => ⟨n, hn, le_refl n⟩,
      rfl, .inl ⟨rfl, rfl, rfl⟩, fun _ => ?_⟩
    rw [hm, Option.elim_some, max_eq_left ((of_decide_eq_true heq : x.1 = ext) ▸ hle)]
  rw [if_neg hthere]
  have hsound : (b.accept ext pcm).Sound := by
    refine h.accept hpcm (fun n hn => ?_) fun x hx heq => hthere ?_
    · refine not_lt.mp fun hlt => hlate ?_
      exact Option.any_eq_true _ _ |>.mpr ⟨n, hn, decide_eq_true hlt⟩
    · exact List.any_eq_true.mpr ⟨x, hx, decide_eq_true heq⟩
  have hperm : ((ext, pcm) :: b.frames).Perm (b.accept ext pcm).frames := (perm_insert _ _).symm
  split_ifs with hgrown
  · have htrimmed := trimmed_trim hsound (b.accept ext pcm).frames.length
    obtain ⟨dropped, hdropped, hoverflow⟩ := htrimmed.frames
    refine ⟨htrimmed.sound, htrimmed.next, htrimmed.out,
      .inr ⟨htrimmed.received, dropped, ?_, hoverflow⟩,
      fun _ => htrimmed.highest⟩
    rw [hdropped] at hperm
    exact hperm.trans List.perm_append_comm
  · refine ⟨hsound, fun n hn => ⟨n, hn, le_refl n⟩, rfl, .inr ⟨rfl, [], ?_, rfl⟩, fun _ => rfl⟩
    rw [List.append_nil]
    exact hperm

/-! ## Unwrapping -/

theorem toInt_toInt16 (x : UInt16) :
    x.toInt16.toInt = if 2 * x.toNat < 65536 then (x.toNat : ℤ) else x.toNat - 65536 := by
  change x.toBitVec.toInt = _
  rw [BitVec.toInt_eq_toNat_cond]
  rfl

theorem extend_of_first (h : b.Sound) (hhighest : b.highest = none) (number : ℕ) :
    b.extend (UInt16.ofNat number) + 65536 * (number / 65536) = number + 65536 := by
  have hnext : b.next = none := by
    refine Option.eq_none_iff_forall_not_mem.mpr fun n hn => ?_
    obtain ⟨m, hm, -⟩ := h.nextHighest n hn
    rw [hhighest] at hm
    cases hm
  have hseq : (UInt16.ofNat number).toNat = number % 65536 := UInt16.toNat_ofNat'
  unfold extend
  rw [hhighest, hnext]
  change 65536 + (UInt16.ofNat number).toNat + _ = _
  omega

/-- **A number within reach of the highest** is found. -/
theorem extend_of_reach {highest number : ℕ} {h c : ℕ} (hhighest : b.highest = some h)
    (hcycle : h + 65536 * c = highest + 65536) (hroom : 65536 ≤ h) (hup : number ≤ highest + 32767)
    (hdown : highest ≤ number + 32767) :
    b.extend (UInt16.ofNat number) + 65536 * c = number + 65536 := by
  have hseq : (UInt16.ofNat number).toNat = number % 65536 := UInt16.toNat_ofNat'
  have hh : (UInt16.ofNat h).toNat = h % 65536 := UInt16.toNat_ofNat'
  have hsub : (UInt16.ofNat number - UInt16.ofNat h).toNat =
    (65536 - h % 65536 + number % 65536) % 65536 := by
    rw [UInt16.toNat_sub, hseq, hh]
  have hdiff : (UInt16.ofNat number - UInt16.ofNat h).toInt16.toInt = (number : ℤ) - highest := by
    rw [toInt_toInt16, hsub]
    split_ifs with hhalf
    · omega
    · omega
  unfold extend
  rw [hhighest]
  change ((h : ℤ) + (UInt16.ofNat number - UInt16.ofNat h).toInt16.toInt).toNat + _ = _
  rw [hdiff]
  omega

end JitterBuffer

/-! ## A call -/

open JitterBuffer

/-- The buffer of a call, with what it was given and what it has put out. -/
structure Call where
  buf : JitterBuffer
  /-- The frames that were counted as received, with their numbers. -/
  accepted : List (ℕ × Samples) := []
  /-- What has been put out, and which of it are frames. -/
  chunks : List (Option ℕ × Samples) := []
  pulled : Samples := []
  /-- The true numbers of the packets that came, and the numbers that they were given. -/
  extended : List (ℕ × ℕ) := []

/-- What happens in a call. -/
inductive CallEvent where
  /-- A packet, with its true number. -/
  | push (number : ℕ) (pcm : Samples)
  /-- A call of `pull`, and the delay that is the right one at each turn. -/
  | pull (n : ℕ) (targets : ℕ → UInt32)

namespace Call

def start (minDelayMs maxDelayMs : UInt32) : Call := { buf := { minDelayMs, maxDelayMs } }

def push (w : Call) (number : ℕ) (pcm : Samples) : Call :=
  let seq := UInt16.ofNat number
  let buf := w.buf.push seq pcm
  { w with
    buf
    accepted :=
      if buf.stats.received = w.buf.stats.received then w.accepted
      else w.accepted ++ [(w.buf.extend seq, pcm)]
    extended := if pcm = [] then w.extended else w.extended ++ [(number, w.buf.extend seq)] }

/-- One push or pull. -/
def step (fade : ℕ → ℕ → Int16 → Int16) (w : Call) : CallEvent → Option Call
  | .push number pcm => some (w.push number pcm)
  | .pull n targets => (w.buf.fill fade n n targets).map fun (buf, chunks) =>
    { w with
      buf := { buf with out := buf.out.drop n }
      chunks := w.chunks ++ chunks
      pulled := w.pulled ++ buf.out.take n }

def steps (fade : ℕ → ℕ → Int16 → Int16) (w : Call) (l : List CallEvent) : Option Call :=
  l.foldlM (step fade) w

/-- **The invariant of a call.** -/
structure Holds (w : Call) : Prop where
  sound : w.buf.Sound
  accepted : ∃ dropped, w.accepted.Perm (played w.chunks ++ w.buf.frames ++ dropped) ∧
    w.buf.stats.overflow = dropped.length
  received : w.buf.stats.received = w.accepted.length
  ordered : (played w.chunks).Pairwise fun x y => x.1 < y.1
  before : ∀ x ∈ played w.chunks, ∃ n ∈ w.buf.next, x.1 < n
  samples : w.pulled ++ w.buf.out = w.chunks.flatMap (·.2)

/-- The numbers that the packets were given are their true ones, but for the cycle in which the
first of them is. -/
def Unwrapped (w : Call) (highest : Option ℕ) : Prop :=
  w.buf.highest = none ∧ highest = none ∧ w.extended = [] ∨
    ∃ c h m, w.buf.highest = some h ∧ highest = some m ∧ h + 65536 * c = m + 65536 ∧ 65536 ≤ h ∧
      ∀ p ∈ w.extended, p.2 + 65536 * c = p.1 + 65536

/-- Each packet is within 32767 of the highest so far. -/
def WithinReach (highest : Option ℕ) : List CallEvent → Prop
  | [] => True
  | .push number pcm :: l =>
    if pcm = [] then WithinReach highest l
    else (∀ m ∈ highest, number ≤ m + 32767 ∧ m ≤ number + 32767) ∧
      WithinReach (some (highest.elim number (max · number))) l
  | .pull .. :: l => WithinReach highest l

variable {w w' : Call} {fade : ℕ → ℕ → Int16 → Int16} {highest : Option ℕ}

theorem holds_start (minDelayMs maxDelayMs : UInt32) : (start minDelayMs maxDelayMs).Holds := by
  refine ⟨⟨.nil, fun x hx => absurd hx List.not_mem_nil, fun n hn => (nomatch hn),
    fun n hn => (nomatch hn),
    fun x hx => absurd hx List.not_mem_nil, fun hp => (nomatch hp)⟩, ⟨[], .refl _, rfl⟩, rfl, .nil,
    fun x hx => absurd hx List.not_mem_nil, rfl⟩

theorem Holds.push (h : w.Holds) (number : ℕ) (pcm : Samples) : (w.push number pcm).Holds := by
  have hpushed := pushed_push h.sound (UInt16.ofNat number) pcm
  obtain ⟨dropped, hperm, hoverflow⟩ := h.accepted
  have hbefore : ∀ x ∈ played w.chunks, ∃ n ∈ (w.push number pcm).buf.next, x.1 < n := by
    intro x hx
    obtain ⟨n, hn, hlt⟩ := h.before x hx
    obtain ⟨n', hn', hle⟩ := hpushed.next n hn
    exact ⟨n', hn', hlt.trans_le hle⟩
  have hsamples : w.pulled ++ (w.push number pcm).buf.out = w.chunks.flatMap (·.2) := by
    rw [show (w.push number pcm).buf.out = w.buf.out from hpushed.out]
    exact h.samples
  rcases hpushed.frames with ⟨hreceived, hframes, hsame⟩ | ⟨hreceived, dropped', hperm', hmore⟩
  · have haccepted : (w.push number pcm).accepted = w.accepted := if_pos hreceived
    refine ⟨hpushed.sound, ⟨dropped, ?_, hsame.trans hoverflow⟩, ?_, h.ordered, hbefore, hsamples⟩
    · rw [haccepted]
      change w.accepted.Perm
        (played w.chunks ++ (w.buf.push (UInt16.ofNat number) pcm).frames ++ dropped)
      rw [hframes]
      exact hperm
    · rw [haccepted]
      exact hreceived.trans h.received
  · have hne : ¬ (w.buf.push (UInt16.ofNat number) pcm).stats.received = w.buf.stats.received := by
      rw [hreceived]
      exact Nat.succ_ne_self _
    have haccepted :
      (w.push number pcm).accepted = w.accepted ++ [(w.buf.extend (UInt16.ofNat number), pcm)] :=
      if_neg hne
    refine ⟨hpushed.sound, ⟨dropped' ++ dropped, ?_, ?_⟩, ?_, h.ordered, hbefore, hsamples⟩
    · -- the frame goes to those that were buffered, of which some are dropped
      rw [haccepted]
      change (w.accepted ++ [_]).Perm
        (played w.chunks ++ (w.buf.push (UInt16.ofNat number) pcm).frames ++ (dropped' ++ dropped))
      generalize (w.buf.extend (UInt16.ofNat number), pcm) = x at hperm' ⊢
      calc (w.accepted ++ [x]).Perm (x :: w.accepted) := List.perm_append_singleton x w.accepted
        _ |>.Perm (x :: (played w.chunks ++ (w.buf.frames ++ dropped))) := by
            rw [← List.append_assoc]
            exact hperm.cons x
        _ |>.Perm (played w.chunks ++ ((x :: w.buf.frames) ++ dropped)) := List.perm_middle.symm
        _ |>.Perm (played w.chunks ++
          ((w.buf.push (UInt16.ofNat number) pcm).frames ++ dropped' ++ dropped)) :=
            (hperm'.append_right dropped).append_left _
        _ = _ := by simp only [List.append_assoc]
    · exact hmore.trans (by rw [hoverflow, List.length_append, Nat.add_comm])
    · rw [haccepted, List.length_append, ← h.received]
      exact hreceived

theorem Holds.pull (h : w.Holds) {n : ℕ} {buf : JitterBuffer} {chunks : List (Option ℕ × Samples)}
    (hfilled : w.buf.Filled chunks buf) :
    Holds { w with
      buf := { buf with out := buf.out.drop n }
      chunks := w.chunks ++ chunks
      pulled := w.pulled ++ buf.out.take n } := by
  obtain ⟨dropped, hperm, hoverflow⟩ := h.accepted
  have hplayed : played (w.chunks ++ chunks) = played w.chunks ++ played chunks :=
    List.filterMap_append
  refine ⟨hfilled.sound.withOut _, ⟨dropped, ?_, hfilled.overflow.trans hoverflow⟩,
    hfilled.received.trans h.received,
    ?_, fun x hx => ?_, ?_⟩
  · dsimp only
    rw [hplayed, List.append_assoc (played w.chunks)]
    exact hperm.trans (((hfilled.frames).append_left _).append_right _)
  · dsimp only
    rw [hplayed]
    refine List.pairwise_append.mpr ⟨h.ordered, hfilled.ordered, fun x hx y hy => ?_⟩
    obtain ⟨m, hm, hlt⟩ := h.before x hx
    exact hlt.trans_le ((hfilled.later y hy).1 m hm)
  · dsimp only at hx
    rw [hplayed] at hx
    rcases List.mem_append.mp hx with hx | hx
    · obtain ⟨m, hm, hlt⟩ := h.before x hx
      obtain ⟨m', hm', hle⟩ := hfilled.next m hm
      exact ⟨m', hm', hlt.trans_le hle⟩
    · exact (hfilled.later x hx).2
  · dsimp only
    rw [List.append_assoc, List.take_append_drop, hfilled.out, ← List.append_assoc, h.samples,
      List.flatMap_append]

theorem Unwrapped.push {number : ℕ} {pcm : Samples} (h : w.Unwrapped highest) (hsound : w.buf.Sound)
    (hpcm : pcm ≠ []) (hreach : ∀ m ∈ highest, number ≤ m + 32767 ∧ m ≤ number + 32767) :
    (w.push number pcm).Unwrapped (some (highest.elim number (max · number))) := by
  have hhighest :
    (w.push number pcm).buf.highest = some (w.buf.highest.elim (w.buf.extend (UInt16.ofNat number))
      (max · (w.buf.extend (UInt16.ofNat number)))) :=
        (pushed_push hsound (UInt16.ofNat number) pcm).highest hpcm
  have hextended :
    (w.push number pcm).extended = w.extended ++ [(number, w.buf.extend (UInt16.ofNat number))] :=
    if_neg hpcm
  rcases h with ⟨hnone, rfl, hempty⟩ | ⟨c, h, m, hsome, rfl, hcycle, hroom, hall⟩
  · have hext := extend_of_first hsound hnone number
    rw [hnone] at hhighest
    rw [hempty] at hextended
    refine .inr ⟨number / 65536, _, _, hhighest, rfl, hext, ?_, ?_⟩
    · dsimp only [Option.elim]
      omega
    · rw [hextended]
      rintro p hp
      rw [List.mem_singleton.mp hp]
      exact hext
  · obtain ⟨hup, hdown⟩ := hreach m rfl
    have hext := extend_of_reach hsome hcycle hroom hup hdown
    rw [hsome] at hhighest
    refine .inr ⟨c, _, _, hhighest, rfl, ?_, ?_, ?_⟩
    · dsimp only [Option.elim]
      omega
    · dsimp only [Option.elim]
      omega
    · rw [hextended]
      intro p hp
      rcases List.mem_append.mp hp with hp | hp
      · exact hall p hp
      · rw [List.mem_singleton.mp hp]
        exact hext

theorem unwrapped_push_nil {number : ℕ} (h : w.Unwrapped highest) :
    (w.push number []).Unwrapped highest := h

theorem Unwrapped.of_eq (h : w.Unwrapped highest) (hhighest : w'.buf.highest = w.buf.highest)
    (hextended : w'.extended = w.extended) : w'.Unwrapped highest := by
  unfold Unwrapped
  rw [hhighest, hextended]
  exact h

/-- **A step keeps the invariant**, and there is a step. -/
theorem Holds.step (h : w.Holds) (e : CallEvent) : ∃ w', w.step fade e = some w' ∧ w'.Holds ∧
    ∀ l, WithinReach highest (e :: l) → w.Unwrapped highest → ∃ highest', w'.Unwrapped highest' ∧
      WithinReach highest' l := by
  cases e with
  | push number pcm =>
    refine ⟨_, rfl, h.push number pcm, fun l hreach hunwrapped => ?_⟩
    rw [WithinReach] at hreach
    by_cases hpcm : pcm = []
    · rw [if_pos hpcm] at hreach
      rw [hpcm]
      exact ⟨highest, unwrapped_push_nil hunwrapped, hreach⟩
    · rw [if_neg hpcm] at hreach
      exact ⟨_, hunwrapped.push h.sound hpcm hreach.1, hreach.2⟩
  | pull n targets =>
    obtain ⟨buf, chunks, hfill, -, hfilled⟩ :=
      filled_fill fade targets h.sound (Nat.le_add_left n w.buf.out.length)
    refine ⟨_, congrArg (Option.map _) hfill, h.pull hfilled, fun l hreach hunwrapped => ?_⟩
    exact ⟨highest, hunwrapped.of_eq hfilled.highest rfl, hreach⟩

/-- **A call goes on**, and keeps the invariant. -/
theorem Holds.steps (h : w.Holds) (l : List CallEvent) : ∃ w', w.steps fade l = some w' ∧ w'.Holds ∧
    (WithinReach highest l → w.Unwrapped highest → ∃ highest', w'.Unwrapped highest') := by
  induction l generalizing w highest with
  | nil => exact ⟨w, rfl, h, fun _ hunwrapped => ⟨highest, hunwrapped⟩⟩
  | cons e l ih =>
    obtain ⟨w₁, hstep, h₁, hreach₁⟩ := @Holds.step w fade highest h e
    obtain ⟨w', hsteps, h', -⟩ := @ih w₁ highest h₁
    refine ⟨w', ?_, h', fun hreach hunwrapped => ?_⟩
    · rw [Call.steps, List.foldlM_cons, hstep]
      exact hsteps
    · obtain ⟨highest₁, hunwrapped₁, hrest⟩ := hreach₁ l hreach hunwrapped
      obtain ⟨w'', hsteps'', -, hdone⟩ := @ih w₁ highest₁ h₁
      obtain rfl : w' = w'' := Option.some.inj (hsteps.symm.trans hsteps'')
      exact hdone hrest hunwrapped₁

end Call

/-- **Order and conservation.**  Whatever packets come, whenever the samples are asked for and
whatever delay is the right one at each time, a call goes on, and in every state `pull` ends with
as many samples as it is asked for.  The frames that are played have ascending numbers; the frames
that were accepted are those that have been played, as they came, those that are buffered, and
those that were dropped; and the samples are the chunks one after another.  Where each packet is
within reach of the highest so far, the numbers are the true ones but for the first cycle. -/
theorem jitterBuffer_call (fade : ℕ → ℕ → Int16 → Int16) (minDelayMs maxDelayMs : UInt32)
    (l : List CallEvent) :
    ∃ w, (Call.start minDelayMs maxDelayMs).steps fade l = some w ∧
      (∀ (n turns : ℕ) (targets : ℕ → UInt32), n ≤ turns →
        ∃ b samples, w.buf.pull fade turns targets n = some (b, samples) ∧ samples.length = n) ∧
      (played w.chunks).Pairwise (fun x y => x.1 < y.1) ∧
      (∃ dropped, w.accepted.Perm (played w.chunks ++ w.buf.frames ++ dropped) ∧
        w.buf.stats.overflow = dropped.length) ∧
      w.buf.stats.received = (played w.chunks).length + w.buf.frames.length + w.buf.stats.overflow ∧
      w.pulled ++ w.buf.out = w.chunks.flatMap (·.2) ∧
      (Call.WithinReach none l → ∃ c, ∀ p ∈ w.extended, p.2 + 65536 * c = p.1 + 65536) := by
  obtain ⟨w, hsteps, h, hreach⟩ :=
    @Call.Holds.steps _ fade none (Call.holds_start minDelayMs maxDelayMs) l
  obtain ⟨dropped, hperm, hoverflow⟩ := h.accepted
  refine ⟨w, hsteps, fun n turns targets hturns => ?_, h.ordered, h.accepted, ?_, h.samples,
    fun hl => ?_⟩
  · obtain ⟨b, chunks, hfill, hout, -⟩ :=
      filled_fill fade targets h.sound (hturns.trans (Nat.le_add_left turns _))
    refine ⟨_, _, congrArg (Option.map _) hfill, ?_⟩
    exact List.length_take_of_le hout
  · rw [h.received, hperm.length_eq, List.length_append, List.length_append, hoverflow]
  · obtain ⟨highest, hunwrapped⟩ := hreach hl (.inl ⟨rfl, rfl, rfl⟩)
    rcases hunwrapped with ⟨-, -, hempty⟩ | ⟨c, h, m, -, -, -, -, hall⟩
    · refine ⟨0, fun p hp => ?_⟩
      rw [hempty] at hp
      cases hp
    · exact ⟨c, hall⟩

/-- Packets 65535, 65537 and 65536 of four samples, and twelve samples are asked for. -/
def acrossTheWrap : List CallEvent :=
  [.push 65535 [1, 1, 1, 1], .push 65537 [3, 3, 3, 3], .push 65536 [2, 2, 2, 2],
    .pull 12 fun _ => 0]

theorem jitterBuffer_call_wrap :
    ∃ w, (Call.start 0 200).steps (fun _ _ x => x) acrossTheWrap = some w ∧
      (played w.chunks).Pairwise (fun x y => x.1 < y.1) ∧
      ∃ c, ∀ p ∈ w.extended, p.2 + 65536 * c = p.1 + 65536 := by
  obtain ⟨w, hsteps, -, hordered, -, -, -, hnumbers⟩ :=
    jitterBuffer_call (fun _ _ x => x) 0 200 acrossTheWrap
  exact ⟨w, hsteps, hordered, hnumbers (by simp [acrossTheWrap, Call.WithinReach])⟩

end EvansComputer.Rtp

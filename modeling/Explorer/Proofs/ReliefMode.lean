import Explorer.Ref.Worker

/-!
# Load-shed mode over whole histories

The mode is four counters that three calls reset by different rules: a stall
starts the streak over and keeps or restarts the count, progress clears the
count and adds to the streak, and only the stalled height survives everything.
`ReliefTracks` reads the four off the history: the calls since the last stall
decide the mode and the streak, the stalls at the end of the history decide
the count. The height that survives does no harm because the count it is
compared for is zero whenever the last call was not a stall.
-/

namespace Explorer.Ref

/-! ## What the history says -/

def ReliefCall.isStall : ReliefCall → Bool
  | .stall _ => true
  | .progress _ | .clear => false

def ReliefCall.blocks : ReliefCall → Nat
  | .progress blocks => blocks
  | .stall _ | .clear => 0

/-- The calls after the last stall, the latest first. -/
def sinceStall (calls : List ReliefCall) : List ReliefCall :=
  calls.reverse.takeWhile fun c => !c.isStall

/-- The blocks that calls of `register_progress` add up to. -/
def progressed (calls : List ReliefCall) : Nat :=
  (calls.map ReliefCall.blocks).sum

/-- The stalls on one height that end the history. -/
def stallsInARow (calls : List ReliefCall) : Nat :=
  match calls.reverse with
  | .stall height :: rest =>
      (rest.takeWhile fun c => c == .stall height).length + 1
  | _ => 0

def reliefAfter (calls : List ReliefCall) : RpcReliefState :=
  calls.foldl RpcReliefState.call {}

/-- The transitions that the calls of a history report. -/
def modeChanges (s : RpcReliefState) : List ReliefCall → List ModeChange
  | [] => []
  | c :: calls => (s.report c).toList ++ modeChanges (s.call c) calls

section

variable {calls : List ReliefCall} {s : RpcReliefState}

theorem reliefAfter_snoc (calls : List ReliefCall) (c : ReliefCall) :
    reliefAfter (calls ++ [c]) = (reliefAfter calls).call c := by
  rw [reliefAfter, List.foldl_append]
  rfl

theorem sinceStall_snoc_stall (calls : List ReliefCall) (height : Nat) :
    sinceStall (calls ++ [.stall height]) = [] := by
  rw [sinceStall, List.reverse_append]
  rfl

theorem sinceStall_snoc {c : ReliefCall} (calls : List ReliefCall)
    (hc : c.isStall = false) :
    sinceStall (calls ++ [c]) = c :: sinceStall calls := by
  rw [sinceStall, List.reverse_append, List.reverse_singleton,
    List.singleton_append, List.takeWhile_cons_of_pos (by rw [hc]; rfl)]
  rfl

theorem progressed_cons (c : ReliefCall) (calls : List ReliefCall) :
    progressed (c :: calls) = c.blocks + progressed calls := by
  rw [progressed, List.map_cons, List.sum_cons]
  rfl

theorem stallsInARow_snoc {c : ReliefCall} (calls : List ReliefCall)
    (hc : c.isStall = false) : stallsInARow (calls ++ [c]) = 0 := by
  rw [stallsInARow, List.reverse_append]
  cases c with
  | stall height => cases hc
  | progress blocks => rfl
  | clear => rfl

theorem stallsInARow_snoc_stall (calls : List ReliefCall) (height : Nat) :
    stallsInARow (calls ++ [.stall height]) =
      if calls.getLast? = some (.stall height) then stallsInARow calls + 1
      else 1 := by
  rw [stallsInARow, List.reverse_append, List.reverse_singleton,
    List.singleton_append, ← List.head?_reverse, stallsInARow]
  cases calls.reverse with
  | nil => rfl
  | cons c rest =>
      rw [List.head?_cons]
      by_cases hc : c = .stall height
      · subst hc
        simp
      · simp [hc]

theorem getLast?_of_stallsInARow (h : stallsInARow calls ≠ 0) :
    ∃ height, calls.getLast? = some (.stall height) := by
  rw [← List.head?_reverse]
  unfold stallsInARow at h
  split at h
  · next height rest hrev => exact ⟨height, by rw [hrev]; rfl⟩
  · exact absurd rfl h

/-- The count never exceeds the stalls there were. -/
theorem stallsInARow_le (calls : List ReliefCall) :
    stallsInARow calls ≤ calls.countP ReliefCall.isStall := by
  induction calls using List.reverseRecOn with
  | nil => exact Nat.le_refl 0
  | append_singleton calls c ih =>
      rw [List.countP_append]
      cases c with
      | stall height =>
          rw [stallsInARow_snoc_stall]
          simp only [List.countP_singleton, ReliefCall.isStall, if_true]
          split <;> omega
      | progress blocks =>
          rw [stallsInARow_snoc calls rfl]
          exact Nat.zero_le _
      | clear =>
          rw [stallsInARow_snoc calls rfl]
          exact Nat.zero_le _

/-! ## One call -/

/-- What the state holds of the history. -/
structure ReliefTracks (calls : List ReliefCall) (s : RpcReliefState) :
    Prop where
  active : s.active = true ↔
    calls.any ReliefCall.isStall = true ∧ .clear ∉ sinceStall calls ∧
      progressed (sinceStall calls) < reliefRecoveryCommitBlocks
  streak : s.committedStreak =
    if s.active then progressed (sinceStall calls) else 0
  height : ∀ height, calls.getLast? = some (.stall height) →
    s.stalledHeight = height
  count : s.stallCount = stallsInARow calls

theorem reliefTracks_nil : ReliefTracks [] {} where
  active := by simp
  streak := rfl
  height := by simp
  count := rfl

theorem ReliefTracks.streak_lt (h : ReliefTracks calls s) :
    s.committedStreak < reliefRecoveryCommitBlocks := by
  rw [h.streak]
  split
  · next hact => exact (h.active.mp hact).2.2
  · exact Nat.succ_pos 3

theorem ReliefTracks.stall (h : ReliefTracks calls s) (height : Nat)
    (hfew : (calls ++ [ReliefCall.stall height]).countP
      ReliefCall.isStall < 2 ^ 32) :
    ReliefTracks (calls ++ [.stall height]) (s.registerStall height) := by
  have hle := stallsInARow_le (calls ++ [.stall height])
  rw [stallsInARow_snoc_stall] at hle
  refine ⟨?_, ?_, ?_, ?_⟩
  · rw [sinceStall_snoc_stall]
    simp [RpcReliefState.registerStall, ReliefCall.isStall, progressed,
      reliefRecoveryCommitBlocks]
  · rw [sinceStall_snoc_stall]
    rfl
  · intro height' hlast
    rw [List.getLast?_concat] at hlast
    cases hlast
    rfl
  · rw [stallsInARow_snoc_stall, RpcReliefState.registerStall, h.count]
    by_cases hlast : calls.getLast? = some (.stall height)
    · rw [if_pos hlast] at hle ⊢
      rw [if_pos (h.height height hlast)]
      exact Nat.mod_eq_of_lt (by omega)
    · -- the height may be that of an older stall, but the count is zero then
      rw [if_neg hlast]
      split
      · next hsame =>
          have hzero : stallsInARow calls = 0 := by
            by_contra hne
            obtain ⟨height', hend⟩ := getLast?_of_stallsInARow hne
            rw [← h.height height' hend, hsame] at hend
            exact hlast hend
          rw [hzero]
          rfl
      · rfl

theorem getLast?_ne_stall {c : ReliefCall} (hc : c.isStall = false)
    (height : Nat) : (calls ++ [c]).getLast? ≠ some (.stall height) := by
  rw [List.getLast?_concat]
  intro he
  cases he
  cases hc

theorem reliefTracks_clear (calls : List ReliefCall) (s : RpcReliefState) :
    ReliefTracks (calls ++ [.clear]) s.clear := by
  refine ⟨?_, rfl, ?_, ?_⟩
  · rw [sinceStall_snoc calls rfl]
    simp [RpcReliefState.clear]
  · intro height hlast
    exact absurd hlast (getLast?_ne_stall rfl height)
  · rw [stallsInARow_snoc calls rfl]
    rfl

/-- The streak as the code computes it, before it is compared. -/
theorem ReliefTracks.satAdd32_lt (h : ReliefTracks calls s)
    (hact : s.active = true) (blocks : Nat) :
    satAdd32 s.committedStreak (min blocks u32Max) <
        reliefRecoveryCommitBlocks ↔
      blocks + progressed (sinceStall calls) < reliefRecoveryCommitBlocks := by
  have hstreak := h.streak
  rw [if_pos hact] at hstreak
  rw [hstreak]
  simp only [satAdd32, u32Max, reliefRecoveryCommitBlocks]
  omega

/-- The three things `register_progress` can do, with what it reports. -/
theorem registerProgress_cases (s : RpcReliefState) (blocks : Nat) :
    ((s.active = false ∨ blocks = 0) ∧
      s.registerProgress blocks = { s with stallCount := 0 } ∧
      s.progressReport blocks = false) ∨
    (s.active = true ∧
      satAdd32 s.committedStreak (min blocks u32Max) <
        reliefRecoveryCommitBlocks ∧
      s.registerProgress blocks =
        { s with
          stallCount := 0
          committedStreak :=
            (s.committedStreak + min blocks u32Max) % 2 ^ 32 } ∧
      s.progressReport blocks = false) ∨
    (s.active = true ∧
      ¬satAdd32 s.committedStreak (min blocks u32Max) <
        reliefRecoveryCommitBlocks ∧
      s.registerProgress blocks =
        { s with stallCount := 0, committedStreak := 0, active := false } ∧
      s.progressReport blocks = true) := by
  simp only [RpcReliefState.registerProgress, RpcReliefState.progressReport]
  by_cases hidle : (!s.active || blocks == 0) = true
  · rw [if_pos hidle, if_pos hidle]
    refine .inl ⟨?_, rfl, rfl⟩
    simpa using hidle
  · have hact : s.active = true := by
      simp only [Bool.or_eq_true, Bool.not_eq_true', not_or] at hidle
      simpa using hidle.1
    rw [if_neg hidle, if_neg hidle]
    by_cases hlt : satAdd32 s.committedStreak (min blocks u32Max) <
        reliefRecoveryCommitBlocks
    · rw [if_pos hlt, if_pos hlt]
      exact .inr (.inl ⟨hact, hlt, rfl, rfl⟩)
    · rw [if_neg hlt, if_neg hlt]
      exact .inr (.inr ⟨hact, hlt, rfl, hact⟩)

theorem mem_sinceStall_progress (calls : List ReliefCall) (blocks : Nat) :
    ReliefCall.clear ∈ sinceStall (calls ++ [.progress blocks]) ↔
      ReliefCall.clear ∈ sinceStall calls := by
  rw [sinceStall_snoc calls rfl, List.mem_cons]
  simp

theorem progressed_sinceStall_progress (calls : List ReliefCall)
    (blocks : Nat) :
    progressed (sinceStall (calls ++ [.progress blocks])) =
      blocks + progressed (sinceStall calls) := by
  rw [sinceStall_snoc calls rfl, progressed_cons]
  rfl

theorem ReliefTracks.progress (h : ReliefTracks calls s) (blocks : Nat) :
    ReliefTracks (calls ++ [.progress blocks]) (s.registerProgress blocks) := by
  have hany : (calls ++ [ReliefCall.progress blocks]).any ReliefCall.isStall =
      calls.any ReliefCall.isStall := by
    rw [List.any_append]
    exact Bool.or_false _
  have hcount : (s.registerProgress blocks).stallCount = 0 := by
    obtain ⟨-, hs, -⟩ | ⟨-, -, hs, -⟩ | ⟨-, -, hs, -⟩ :=
      registerProgress_cases s blocks <;> rw [hs]
  have hactive := h.active
  have hstreak := h.streak
  have hlt := h.streak_lt
  refine ⟨?_, ?_, ?_, ?_⟩
  · rw [hany, mem_sinceStall_progress, progressed_sinceStall_progress]
    obtain ⟨hidle, hs, -⟩ | ⟨hact, hshort, hs, -⟩ | ⟨hact, hlong, hs, -⟩ :=
      registerProgress_cases s blocks
    · rw [hs]
      rcases hidle with hoff | rfl
      · -- blocks after the mode has ended do not bring it back
        rw [hoff] at hactive ⊢
        constructor
        · intro he
          cases he
        · rintro ⟨hstall, hclear, hfew⟩
          exact hactive.mpr ⟨hstall, hclear, by omega⟩
      · rw [Nat.zero_add]
        exact hactive
    · rw [h.satAdd32_lt hact] at hshort
      obtain ⟨hstall, hclear, -⟩ := hactive.mp hact
      rw [hs]
      exact ⟨fun _ => ⟨hstall, hclear, hshort⟩, fun _ => hact⟩
    · rw [h.satAdd32_lt hact] at hlong
      rw [hs]
      constructor
      · intro he
        cases he
      · intro hon
        exact absurd hon.2.2 hlong
  · rw [progressed_sinceStall_progress]
    obtain ⟨hidle, hs, -⟩ | ⟨hact, hshort, hs, -⟩ | ⟨-, -, hs, -⟩ :=
      registerProgress_cases s blocks
    · rw [hs]
      rcases hidle with hoff | rfl
      · rw [hoff] at hstreak ⊢
        exact hstreak
      · rw [Nat.zero_add]
        exact hstreak
    · rw [h.satAdd32_lt hact] at hshort
      rw [hs, if_pos hact]
      rw [if_pos hact] at hstreak
      simp only [hstreak, u32Max, reliefRecoveryCommitBlocks] at hshort ⊢
      omega
    · rw [hs]
      rfl
  · intro height hlast
    exact absurd hlast (getLast?_ne_stall rfl height)
  · rw [hcount, stallsInARow_snoc calls rfl]

/-! ## Whole histories -/

theorem reliefTracks (calls : List ReliefCall)
    (hfew : calls.countP ReliefCall.isStall < 2 ^ 32) :
    ReliefTracks calls (reliefAfter calls) := by
  induction calls using List.reverseRecOn with
  | nil => exact reliefTracks_nil
  | append_singleton calls c ih =>
      have hbefore : calls.countP ReliefCall.isStall < 2 ^ 32 := by
        rw [List.countP_append] at hfew
        omega
      rw [reliefAfter_snoc]
      cases c with
      | stall height => exact (ih hbefore).stall height hfew
      | progress blocks => exact (ih hbefore).progress blocks
      | clear => exact reliefTracks_clear calls _

/-- A call reports the transition it makes, and no other. -/
theorem report_eq (s : RpcReliefState) (c : ReliefCall) :
    s.report c =
      match s.active, (s.call c).active with
      | false, true => some .entered
      | true, false => some .left
      | _, _ => none := by
  cases c with
  | stall height =>
      cases hact : s.active <;>
        simp [RpcReliefState.report, RpcReliefState.stallReport,
          RpcReliefState.call, RpcReliefState.registerStall, hact]
  | clear =>
      cases hact : s.active <;>
        simp [RpcReliefState.report, RpcReliefState.clearReport,
          RpcReliefState.call, RpcReliefState.clear, hact]
  | progress blocks =>
      simp only [RpcReliefState.report, RpcReliefState.call]
      obtain ⟨-, hs, hrep⟩ | ⟨hact, -, hs, hrep⟩ | ⟨hact, -, hs, hrep⟩ :=
        registerProgress_cases s blocks
      · rw [hs, hrep]
        cases s.active <;> rfl
      · rw [hs, hrep, hact]
        rfl
      · rw [hs, hrep, hact]
        rfl

/-- The next transition a state can report. -/
def RpcReliefState.nextChange (s : RpcReliefState) : ModeChange :=
  if s.active then .left else .entered

theorem modeChanges_alternate (s : RpcReliefState)
    (calls : List ReliefCall) :
    (modeChanges s calls).IsChain (· ≠ ·) ∧
      ∀ m, (modeChanges s calls).head? = some m → m = s.nextChange := by
  induction calls generalizing s with
  | nil => simp [modeChanges]
  | cons c calls ih =>
      obtain ⟨hchain, hhead⟩ := ih (s.call c)
      rw [modeChanges, report_eq]
      cases hold : s.active <;> cases hnew : (s.call c).active
      all_goals
        simp only [RpcReliefState.nextChange, hold, hnew] at hhead ⊢
      · exact ⟨hchain, hhead⟩
      · refine ⟨List.isChain_cons.mpr ⟨?_, hchain⟩, ?_⟩
        · intro m hm he
          cases (he.trans (hhead m hm) : ModeChange.entered = .left)
        · intro m hm
          cases hm
          rfl
      · refine ⟨List.isChain_cons.mpr ⟨?_, hchain⟩, ?_⟩
        · intro m hm he
          cases (he.trans (hhead m hm) : ModeChange.left = .entered)
        · intro m hm
          cases hm
          rfl
      · exact ⟨hchain, hhead⟩

end

/-- A window planned while shedding is one block with one request. -/
theorem planFetchWindow_shed {current tip : Nat} {settings : WorkerConfig}
    {w : FetchWindow}
    (h : planFetchWindow current tip settings true = .ok (some w)) :
    w.toHeight = w.fromHeight ∧ w.concurrency = 1 := by
  unfold planFetchWindow at h
  split at h
  · cases h
  · simp only at h
    split at h
    · cases h
    · next hbelow =>
        cases h
        simp only [if_true]
        omega

/-- The mode, the streak, the count and the reports of every history, read off
the calls. -/
theorem load_shed_mode_follows_history (calls : List ReliefCall)
    (hfew : calls.countP ReliefCall.isStall < 2 ^ 32) :
    ((reliefAfter calls).active = true ↔
      (∃ height, .stall height ∈ calls) ∧ .clear ∉ sinceStall calls ∧
        progressed (sinceStall calls) < reliefRecoveryCommitBlocks) ∧
    (reliefAfter calls).committedStreak < reliefRecoveryCommitBlocks ∧
    (reliefAfter calls).stallCount = stallsInARow calls ∧
    (∀ before c after, calls = before ++ c :: after →
      ((reliefAfter before).report c = some .entered ↔
        (reliefAfter before).active = false ∧
          (reliefAfter (before ++ [c])).active = true) ∧
      ((reliefAfter before).report c = some .left ↔
        (reliefAfter before).active = true ∧
          (reliefAfter (before ++ [c])).active = false)) ∧
    (modeChanges {} calls).IsChain (· ≠ ·) ∧
    (modeChanges {} calls).head? ≠ some .left ∧
    ((reliefAfter calls).active = true →
      ∀ current tip settings w,
        planFetchWindow current tip settings (reliefAfter calls).active =
          .ok (some w) →
        w.toHeight = w.fromHeight ∧ w.concurrency = 1) := by
  have htracks := reliefTracks calls hfew
  obtain ⟨hchain, hhead⟩ := modeChanges_alternate {} calls
  refine ⟨?_, htracks.streak_lt, htracks.count, ?_, hchain, ?_, ?_⟩
  · rw [htracks.active, List.any_eq_true]
    refine and_congr_left fun _ => ⟨?_, ?_⟩
    · rintro ⟨c, hc, hstall⟩
      cases c with
      | stall height => exact ⟨height, hc⟩
      | progress blocks => cases hstall
      | clear => cases hstall
    · rintro ⟨height, hmem⟩
      exact ⟨_, hmem, rfl⟩
  · intro before c after _
    rw [report_eq, reliefAfter_snoc]
    cases (reliefAfter before).active <;>
      cases ((reliefAfter before).call c).active <;> simp
  · intro hleft
    cases hhead _ hleft
  · intro hact current tip settings w hplan
    rw [hact] at hplan
    exact planFetchWindow_shed hplan

/-- A recovery after one block and three, and a new stall on the old height:
the count starts over although the height was never forgotten. -/
theorem load_shed_mode_after_relapse :
    (reliefAfter [.stall 100, .stall 100, .progress 1, .progress 3,
      .stall 100]).active = true ∧
    (reliefAfter [.stall 100, .stall 100, .progress 1, .progress 3,
      .stall 100]).stallCount = 1 ∧
    modeChanges {} [.stall 100, .stall 100, .progress 1, .progress 3,
      .stall 100] = [.entered, .left, .entered] := by
  have h := load_shed_mode_follows_history [.stall 100, .stall 100,
    .progress 1, .progress 3, .stall 100] (by decide)
  obtain ⟨hactive, -, hcount, -⟩ := h
  exact ⟨hactive.mpr ⟨⟨100, by decide⟩, by decide, by decide⟩, hcount,
    by decide⟩

end Explorer.Ref

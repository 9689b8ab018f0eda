import Explorer.Lib.Steps
import Explorer.Ref.Balances

/-!
# No dirty mark is lost

The pass clears a stamp on the strength of reads it made some time ago, and
what makes that sound is the comparison with the value it took. While a row
still has that value, no block has touched the address above it since the
batch was taken: a touch above it would have raised the stamp. The touches
before the batch, and those at or below the value, are at or below the highest
height committed when the batch was taken, and every read of the pass is at or
above that. `BalancePassOk.stamps` is this argument as an invariant; it is kept
because stamps are only ever raised, except by the pass itself.

What a row holds is said of the answers in the run: its columns are those of
one account the node answered for and of the balances it answered after it.
Nothing in the source keeps the node from answering twice for an address in one
pass, and then the row may show the answer whose tokens are not all known; all
balances are there where it answers once.
-/

namespace Explorer.Ref

open Explorer.Lib

/-- The columns of the row are those of this answer, and of its balances the
ones whose tokens are known. -/
structure AddressRow.Shows (r : AddressRow) (account : FetchedBalanceAccount)
    (tokens : List String) : Prop where
  address : r.address = account.info.address
  stakeTimestamp : r.stakeTimestamp = account.info.stakeTime
  stakedAmountRaw : r.stakedAmountRaw = account.info.stakeAmount
  unclaimedAmountRaw : r.unclaimedAmountRaw = account.info.stakeUnclaimed
  totalSoulAmount : r.totalSoulAmount =
    ((account.balances.find? fun b => b.symbol == "SOUL").map
      TokenBalance.amountRaw).getD 0 + account.info.stakeAmount
  balances : r.balances = (account.balances.filterMap fun b =>
    (nonEmptyString b.symbol).map fun symbol => ⟨symbol, b.amountRaw⟩).filter
      fun b => tokens.contains b.symbol

/-- The node gave this answer, for the account and then for its balances. -/
def FetchedBalanceAccount.AnsweredIn (account : FetchedBalanceAccount)
    (acts : List BalanceAct) : Prop :=
  .account account.info ∈ acts ∧
    .balances account.info account.balances account.read ∈ acts

/-- The row shows an answer that the node gave in these acts, for stake and
balances from states at or above the height; in the case `once` with all its
balances. -/
def AddressRow.ReadSince (acts : List BalanceAct) (once : Prop)
    (r : AddressRow) (height : Nat) : Prop :=
  ∃ account tokens now, account.AnsweredIn acts ∧
    BalanceAct.persist tokens now ∈ acts ∧
    height ≤ account.info.read ∧ height ≤ account.read ∧
    r.Shows account tokens ∧ (once → account.missing tokens = [])

theorem AddressRow.ReadSince.mono {acts : List BalanceAct} {once : Prop}
    {r : AddressRow} {h h' : Nat} (hr : r.ReadSince acts once h)
    (hle : h' ≤ h) : r.ReadSince acts once h' := by
  obtain ⟨account, tokens, now, h1, h2, h3, h4, h5⟩ := hr
  exact ⟨account, tokens, now, h1, h2, by omega, by omega, h5⟩

/-- No two accounts of the pass are of one address. -/
def BalancePass.AnsweredOnce (p : BalancePass) : Prop :=
  (p.accounts.map fun a => a.info.address).Nodup

/-- What holds while a pass runs. -/
structure BalancePassOk (acts : List BalanceAct) (once : Prop)
    (s : BalanceSync) (p : BalancePass) : Prop where
  batch : ∀ d ∈ p.dirtyAddresses, d.address ≠ "NULL" ∧
    0 < d.balanceDirtyBlock ∧ d.balanceDirtyBlock ≤ p.tipAtFetch ∧
    ∃ r ∈ s.rows, r.address = d.address
  stamps : ∀ d ∈ p.dirtyAddresses, ∀ r ∈ s.rows, r.address = d.address →
    d.balanceDirtyBlock ≤ r.balanceDirtyBlock ∧
      (r.balanceDirtyBlock = d.balanceDirtyBlock →
        ∀ h, (r.address, h) ∈ s.touches → h ≤ p.tipAtFetch)
  tip : p.tipAtFetch ≤ s.tip
  infos : ∀ i ∈ p.infos, p.tipAtFetch ≤ i.read ∧ .account i ∈ acts
  accounts : ∀ a ∈ p.accounts, p.tipAtFetch ≤ a.info.read ∧
    p.tipAtFetch ≤ a.read ∧ a.AnsweredIn acts
  stored : ∀ tokens updated, p.phase = .stored tokens updated →
    ∀ d ∈ updated, d ∈ p.dirtyAddresses ∧
      (∃ a ∈ p.accounts, a.info.address = d.address ∧ a.missing tokens = []) ∧
      ∀ r ∈ s.rows, r.address = d.address →
        r.ReadSince acts once p.tipAtFetch

/-- The invariant of the system, in a run with no other acts than these; `clean`
is what it is for. -/
structure BalancesOk (acts : List BalanceAct) (once : Prop)
    (s : BalanceSync) : Prop where
  distinct : (s.rows.map AddressRow.address).Nodup
  flags : ∀ r ∈ s.rows, r.balanceDirtyBlock ≤ s.tip
  touchTip : ∀ a h, (a, h) ∈ s.touches → h ≤ s.tip
  touchRow : ∀ a h, (a, h) ∈ s.touches → ∃ r ∈ s.rows, r.address = a
  clean : ∀ r ∈ s.rows, r.address ≠ "NULL" → r.balanceDirtyBlock = 0 →
    ∀ h, (r.address, h) ∈ s.touches → r.ReadSince acts once h
  pass : ∀ p, s.pass = some p → BalancePassOk acts once s p

variable {acts : List BalanceAct} {once : Prop} {s s' : BalanceSync}

/-- An address has one row. -/
theorem BalancesOk.unique (hok : BalancesOk acts once s) {r r' : AddressRow}
    (hr : r ∈ s.rows) (hr' : r' ∈ s.rows) (h : r.address = r'.address) :
    r = r' :=
  List.inj_on_of_nodup_map hok.distinct hr hr' h

/-! ## Steps -/

/-- What a step of the pass leaves of it that changes nothing else. -/
inductive PassMove (s : BalanceSync) : BalanceAct → Option BalancePass → Prop
  | account {p : BalancePass} {info : AccountInfo} : s.pass = some p →
      s.tip ≤ info.read →
      PassMove s (.account info) (some { p with infos := p.infos ++ [info] })
  | accountsDone {p : BalancePass} : s.pass = some p →
      PassMove s .accountsDone (some { p with phase := .balances })
  | balances {p : BalancePass} {info : AccountInfo}
      {balances : List TokenBalance} {read : Nat} : s.pass = some p →
      p.phase = .balances → info ∈ p.infos → s.tip ≤ read →
      PassMove s (.balances info balances read)
        (some
          { p with
            infos := p.infos.erase info
            accounts := p.accounts ++ [⟨info, balances, read⟩] })
  | balancesFailed {p : BalancePass} {info : AccountInfo} : s.pass = some p →
      PassMove s (.balancesFailed info)
        (some { p with infos := p.infos.erase info })
  | cancel : PassMove s .cancel none

/-- What a step does. -/
inductive BalanceMove (s : BalanceSync) : BalanceAct → BalanceSync → Prop
  | block {height : Nat} {touched : List String} : s.tip < height →
      BalanceMove s (.block height touched)
        { s.commit height touched with tip := height }
  | reproject {height : Nat} {touched : List String} : 0 < height →
      height ≤ s.tip →
      BalanceMove s (.reproject height touched) (s.commit height touched)
  | markAll : BalanceMove s .markAll
      { s with rows := markAllChainAddressesDirty s.tip s.rows }
  | begin {rpcTip : Nat} : BalanceMove s (.begin rpcTip) (s.begin rpcTip)
  | pass {a : BalanceAct} {q : Option BalancePass} : PassMove s a q →
      BalanceMove s a { s with pass := q }
  | persist {p : BalancePass} {tokens : List String} {now : Nat} :
      s.pass = some p →
      BalanceMove s (.persist tokens now)
        { s with
          rows := (persistBalanceAccounts tokens now p.dirtyAddresses
            p.accounts (s.rows, [])).1
          pass := some { p with
            phase := .stored tokens (persistBalanceAccounts tokens now
              p.dirtyAddresses p.accounts (s.rows, [])).2 } }
  | reset {p : BalancePass} {tokens : List String}
      {updated : List DirtyAddress} : s.pass = some p →
      p.phase = .stored tokens updated →
      BalanceMove s .reset
        { s with
          rows := resetDirtyBalanceFlags updated s.rows
          pass := none }

theorem balanceStep_moves {a : BalanceAct} (h : BalanceStep s a s') :
    BalanceMove s a s' := by
  unfold BalanceStep balanceStep at h
  cases a with
  | block height touched =>
      simp only at h
      split at h <;> cases h
      next hlt => exact .block hlt
  | reproject height touched =>
      simp only at h
      split at h <;> cases h
      next hle => exact .reproject hle.1 hle.2
  | markAll =>
      cases h
      exact .markAll
  | begin rpcTip =>
      simp only at h
      split at h <;> cases h
      exact .begin
  | account info =>
      simp only at h
      split at h
      · next p hp =>
          split at h <;> cases h
          next hphase => exact .pass (.account hp hphase.2)
      · cases h
  | accountsDone =>
      simp only at h
      split at h
      · next p hp =>
          split at h <;> cases h
          exact .pass (.accountsDone hp)
      · cases h
  | balances info balances read =>
      simp only at h
      split at h
      · next p hp =>
          split at h <;> cases h
          next hphase =>
            exact .pass (.balances hp hphase.1 hphase.2.1 hphase.2.2)
      · cases h
  | balancesFailed info =>
      simp only at h
      split at h
      · next p hp =>
          split at h <;> cases h
          exact .pass (.balancesFailed hp)
      · cases h
  | persist tokens now =>
      simp only at h
      split at h
      · next p hp =>
          split at h <;> cases h
          exact .persist hp
      · cases h
  | reset =>
      simp only at h
      split at h
      · next p hp =>
          split at h <;> cases h
          next hphase => exact .reset hp hphase
      · cases h
  | cancel =>
      cases h
      exact .pass .cancel

/-! ## Blocks -/

/-- A statement that only raises stamps, to at most `height`, and brings those
of the touched addresses up to it. -/
structure Raises (touched : List String) (height : Nat)
    (f : AddressRow → AddressRow) : Prop where
  address : ∀ r, (f r).address = r.address
  shows : ∀ r account tokens, r.Shows account tokens →
    (f r).Shows account tokens
  le : ∀ r, r.balanceDirtyBlock ≤ (f r).balanceDirtyBlock
  bound : ∀ r, (f r).balanceDirtyBlock ≤ max r.balanceDirtyBlock height
  stamped : ∀ r, r.address ∈ touched → r.address ≠ "NULL" →
    height ≤ (f r).balanceDirtyBlock

theorem Raises.readSince {touched : List String} {height : Nat}
    {f : AddressRow → AddressRow} (hf : Raises touched height f)
    {r : AddressRow} {h : Nat} (hr : r.ReadSince acts once h) :
    (f r).ReadSince acts once h := by
  obtain ⟨account, tokens, now, h1, h2, h3, h4, h5, h6⟩ := hr
  exact ⟨account, tokens, now, h1, h2, h3, h4, hf.shows r account tokens h5,
    h6⟩

theorem BalancesOk.raise {touched : List String} {height tip : Nat}
    {f : AddressRow → AddressRow} (hok : BalancesOk acts once s)
    (hf : Raises touched height f) (htip : s.tip ≤ tip) (hle : height ≤ tip)
    (hpos : touched ≠ [] → 0 < height)
    (hrows : ∀ a ∈ touched, ∃ r ∈ s.rows, r.address = a) :
    BalancesOk acts once { s with
      tip := tip
      rows := s.rows.map f
      touches := s.touches ++ touched.map fun a => (a, height) } := by
  have hmem : ∀ {a h},
      (a, h) ∈ s.touches ++ touched.map (fun a => (a, height)) →
      (a, h) ∈ s.touches ∨ a ∈ touched ∧ h = height := by
    intro a h hx
    rcases List.mem_append.mp hx with hx | hx
    · exact Or.inl hx
    · obtain ⟨b, hb, heq⟩ := List.mem_map.mp hx
      cases heq
      exact Or.inr ⟨hb, rfl⟩
  have hrow : ∀ {a}, (∃ r ∈ s.rows, r.address = a) →
      ∃ r ∈ s.rows.map f, r.address = a := by
    rintro a ⟨r, hr, rfl⟩
    exact ⟨f r, List.mem_map_of_mem hr, hf.address r⟩
  refine ⟨?_, ?_, ?_, ?_, ?_, ?_⟩
  · rw [List.map_map, show AddressRow.address ∘ f = AddressRow.address from
      funext hf.address]
    exact hok.distinct
  · intro r' hr'
    obtain ⟨r, hr, rfl⟩ := List.mem_map.mp hr'
    have hflag := hok.flags r hr
    have hbound := hf.bound r
    simp only
    omega
  · intro a h hx
    rcases hmem hx with hx | ⟨-, rfl⟩
    · exact le_trans (hok.touchTip a h hx) htip
    · exact hle
  · intro a h hx
    rcases hmem hx with hx | ⟨ha, -⟩
    · exact hrow (hok.touchRow a h hx)
    · exact hrow (hrows a ha)
  · intro r' hr' hne hzero h hx
    obtain ⟨r, hr, rfl⟩ := List.mem_map.mp hr'
    rw [hf.address] at hne hx
    have hle' := hf.le r
    rcases hmem hx with hx | ⟨ha, rfl⟩
    · exact hf.readSince (hok.clean r hr hne (by omega) h hx)
    · -- a touched address is stamped, and the height is not zero
      have hstamp := hf.stamped r ha hne
      have hheight := hpos (List.ne_nil_of_mem ha)
      omega
  · intro p hp
    have hpass := hok.pass p hp
    refine ⟨?_, ?_, le_trans hpass.tip htip, hpass.infos, hpass.accounts, ?_⟩
    · intro d hd
      obtain ⟨h1, h2, h3, h4⟩ := hpass.batch d hd
      exact ⟨h1, h2, h3, hrow h4⟩
    · intro d hd r' hr' heq
      obtain ⟨r, hr, rfl⟩ := List.mem_map.mp hr'
      rw [hf.address] at heq ⊢
      obtain ⟨hlow, hsame⟩ := hpass.stamps d hd r hr heq
      have hle' := hf.le r
      refine ⟨by omega, ?_⟩
      intro hflag h hx
      rcases hmem hx with hx | ⟨ha, rfl⟩
      · exact hsame (by omega) h hx
      · obtain ⟨hne, -, hfetch, -⟩ := hpass.batch d hd
        have hstamp := hf.stamped r ha (heq ▸ hne)
        omega
    · intro tokens updated hphase d hd
      obtain ⟨h1, h2, h3⟩ := hpass.stored tokens updated hphase d hd
      refine ⟨h1, h2, ?_⟩
      intro r' hr' heq
      obtain ⟨r, hr, rfl⟩ := List.mem_map.mp hr'
      exact hf.readSince (h3 r hr ((hf.address r).symm.trans heq))

/-- Stamping the rows below the height that a condition selects. -/
theorem raises_of_guard {touched : List String} {height : Nat}
    {guard : AddressRow → Bool}
    (hlt : ∀ r, guard r = true → r.balanceDirtyBlock < height)
    (hall : ∀ r, r.address ∈ touched → r.address ≠ "NULL" →
      r.balanceDirtyBlock < height → guard r = true) :
    Raises touched height fun r =>
      if guard r then { r with balanceDirtyBlock := height } else r where
  address := by intro r; split <;> rfl
  shows := by
    intro r account tokens h
    split
    · exact ⟨h.address, h.stakeTimestamp, h.stakedAmountRaw,
        h.unclaimedAmountRaw, h.totalSoulAmount, h.balances⟩
    · exact h
  le := by
    intro r
    split
    · next h => exact le_of_lt (hlt r h)
    · exact le_refl _
  bound := by
    intro r
    split
    · exact Nat.le_max_right _ _
    · exact Nat.le_max_left _ _
  stamped := by
    intro r ha hne
    split
    · exact le_refl height
    · next h =>
        by_contra hlow
        exact h (hall r ha hne (by omega))

theorem markBlock_raises (touched : List String) (height : Nat) :
    Raises touched height fun r =>
      if touched.contains r.address && r.address != "NULL" &&
          decide (r.balanceDirtyBlock < height) then
        { r with balanceDirtyBlock := height }
      else r := by
  refine raises_of_guard ?_ ?_
  · intro r h
    simp only [Bool.and_eq_true, decide_eq_true_eq] at h
    exact h.2
  · intro r ha hne hlt
    simp only [Bool.and_eq_true, decide_eq_true_eq, bne_iff_ne, ne_eq]
    exact ⟨⟨List.elem_eq_true_of_mem ha, hne⟩, hlt⟩

theorem markAll_raises (height : Nat) :
    Raises [] height fun r =>
      if r.address != "NULL" && decide (r.balanceDirtyBlock < height) then
        { r with balanceDirtyBlock := height }
      else r := by
  refine raises_of_guard ?_ ?_
  · intro r h
    simp only [Bool.and_eq_true, decide_eq_true_eq] at h
    exact h.2
  · intro r ha
    cases ha

/-- Rows for addresses that had none, all of them new. -/
theorem insertAddresses_spec (addresses : List String)
    (rows : List AddressRow) :
    ∃ new, insertAddresses addresses rows = rows ++ new ∧
      (∀ r ∈ new, r = { address := r.address }) ∧
      ((rows.map AddressRow.address).Nodup →
        ((rows ++ new).map AddressRow.address).Nodup) ∧
      ∀ a ∈ addresses, ∃ r ∈ rows ++ new, r.address = a := by
  induction addresses generalizing rows with
  | nil => exact ⟨[], by simp [insertAddresses]⟩
  | cons a as ih =>
      rw [insertAddresses, List.foldl_cons]
      split
      · next hany =>
          obtain ⟨new, heq, hnew, hnodup, hall⟩ := ih rows
          refine ⟨new, heq, hnew, hnodup, ?_⟩
          intro b hb
          rcases List.mem_cons.mp hb with rfl | hb
          · obtain ⟨r, hr, hb⟩ := List.any_eq_true.mp hany
            exact ⟨r, List.mem_append_left _ hr, beq_iff_eq.mp hb⟩
          · exact hall b hb
      · next hany =>
          obtain ⟨new, heq, hnew, hnodup, hall⟩ :=
            ih (rows ++ [{ address := a }])
          refine ⟨{ address := a } :: new, ?_, ?_, ?_, ?_⟩
          · exact heq.trans (List.append_cons rows _ new).symm
          · intro r hr
            rcases List.mem_cons.mp hr with rfl | hr
            · rfl
            · exact hnew r hr
          · intro hrows
            rw [List.append_cons]
            refine hnodup ?_
            rw [List.map_append, List.map_singleton, List.nodup_append]
            refine ⟨hrows, List.nodup_singleton _, ?_⟩
            intro x hx y hy hxy
            obtain ⟨r, hr, rfl⟩ := List.mem_map.mp hx
            refine hany (List.any_eq_true.mpr ⟨r, hr, ?_⟩)
            rw [hxy, List.mem_singleton.mp hy]
            exact beq_self_eq_true a
          · intro b hb
            rw [List.append_cons]
            rcases List.mem_cons.mp hb with rfl | hb
            · exact ⟨_, List.mem_append_left _ (List.mem_append_right _
                List.mem_cons_self), rfl⟩
            · exact hall b hb

theorem BalancesOk.insert (hok : BalancesOk acts once s)
    (addresses : List String) :
    BalancesOk acts once { s with rows := insertAddresses addresses s.rows } ∧
      ∀ a ∈ addresses, ∃ r ∈ insertAddresses addresses s.rows,
        r.address = a := by
  obtain ⟨new, heq, hnew, hnodup, hall⟩ :=
    insertAddresses_spec addresses s.rows
  rw [heq]
  refine ⟨?_, hall⟩
  have hdistinct := hnodup hok.distinct
  have hold : ∀ {a}, (∃ r ∈ s.rows, r.address = a) →
      ∀ r ∈ s.rows ++ new, r.address = a → r ∈ s.rows := by
    rintro a ⟨r₀, hr₀, rfl⟩ r hr ha
    rcases List.mem_append.mp hr with h | h
    · exact h
    · have := List.inj_on_of_nodup_map hdistinct (List.mem_append_left _ hr₀)
        (List.mem_append_right _ h) ha.symm
      exact this ▸ hr₀
  refine ⟨hdistinct, ?_, hok.touchTip, ?_, ?_, ?_⟩
  · intro r hr
    rcases List.mem_append.mp hr with hr | hr
    · exact hok.flags r hr
    · rw [hnew r hr]
      exact Nat.zero_le _
  · intro a h hx
    obtain ⟨r, hr, ha⟩ := hok.touchRow a h hx
    exact ⟨r, List.mem_append_left _ hr, ha⟩
  · intro r hr hne hzero h hx
    exact hok.clean r (hold (hok.touchRow _ h hx) r hr rfl) hne hzero h hx
  · intro p hp
    have hpass := hok.pass p hp
    refine ⟨?_, ?_, hpass.tip, hpass.infos, hpass.accounts, ?_⟩
    · intro d hd
      obtain ⟨h1, h2, h3, r, hr, ha⟩ := hpass.batch d hd
      exact ⟨h1, h2, h3, r, List.mem_append_left _ hr, ha⟩
    · intro d hd r hr ha
      exact hpass.stamps d hd r (hold (hpass.batch d hd).2.2.2 r hr ha) ha
    · intro tokens updated hphase d hd
      obtain ⟨h1, h2, h3⟩ := hpass.stored tokens updated hphase d hd
      refine ⟨h1, h2, ?_⟩
      intro r hr ha
      exact h3 r (hold (hpass.batch d h1).2.2.2 r hr ha) ha

theorem BalancesOk.commit (hok : BalancesOk acts once s) {height tip : Nat}
    (touched : List String) (hpos : 0 < height) (htip : s.tip ≤ tip)
    (hle : height ≤ tip) :
    BalancesOk acts once { s.commit height touched with tip := tip } := by
  obtain ⟨hins, hrows⟩ := hok.insert touched
  exact hins.raise (markBlock_raises touched height) htip hle (fun _ => hpos)
    hrows

/-! ## The pass -/

theorem mem_fetchDirtyAddressBatch {batchSize : Nat} {rows : List AddressRow}
    {d : DirtyAddress} (h : d ∈ fetchDirtyAddressBatch batchSize rows) :
    ∃ r ∈ rows, r.address ≠ "NULL" ∧ 0 < r.balanceDirtyBlock ∧
      d = ⟨r.address, r.balanceDirtyBlock⟩ := by
  obtain ⟨r, hr, rfl⟩ := List.mem_map.mp h
  have hsorted := List.mem_of_mem_take hr
  obtain ⟨hmem, hdirty⟩ := List.mem_filter.mp
    ((List.mem_insertionSort _).mp hsorted)
  simp only [AddressRow.isDirty, Bool.and_eq_true, decide_eq_true_eq,
    bne_iff_ne, ne_eq] at hdirty
  exact ⟨r, hmem, hdirty.2, hdirty.1, rfl⟩

/-- The call ends before its batch, or it has one. -/
theorem BalanceSync.begin_cases (s : BalanceSync) (rpcTip : Nat) :
    s.begin rpcTip = s ∨ ∃ batchSize, s.begin rpcTip =
      { s with
        pass := some
          { phase := .accounts
            dirtyAddresses := fetchDirtyAddressBatch batchSize s.rows
            infos := []
            accounts := []
            tipAtFetch := s.tip } } := by
  unfold BalanceSync.begin
  split
  · exact .inl rfl
  · simp only
    split
    · exact .inl rfl
    · split
      · exact .inl rfl
      · exact .inr ⟨_, rfl⟩

theorem BalanceSync.begin_rows (s : BalanceSync) (rpcTip : Nat) :
    (s.begin rpcTip).rows = s.rows := by
  rcases s.begin_cases rpcTip with h | ⟨batchSize, h⟩ <;> rw [h]

theorem BalancesOk.begin (hok : BalancesOk acts once s) (rpcTip : Nat) :
    BalancesOk acts once (s.begin rpcTip) := by
  rcases s.begin_cases rpcTip with h | ⟨batchSize, h⟩
  · rw [h]
    exact hok
  · rw [h]
    refine ⟨hok.distinct, hok.flags, hok.touchTip, hok.touchRow,
      hok.clean, ?_⟩
    intro p hp
    cases hp
    refine ⟨?_, ?_, le_refl _, (by intro i hi; cases hi),
      (by intro a ha; cases ha), (by intro _ _ h; cases h)⟩
    · intro d hd
      obtain ⟨r, hr, hne, hpos, rfl⟩ := mem_fetchDirtyAddressBatch hd
      exact ⟨hne, hpos, hok.flags r hr, r, hr, rfl⟩
    · intro d hd r' hr' heq
      obtain ⟨r, hr, -, -, rfl⟩ := mem_fetchDirtyAddressBatch hd
      rw [hok.unique hr' hr heq]
      exact ⟨le_refl _, fun _ h hx => hok.touchTip _ h hx⟩

/-- What persisting accounts has done to the rows, and which stamps it
releases. -/
structure Persisted (tokens : List String) (dirty : List DirtyAddress)
    (accounts : List FetchedBalanceAccount) (rows₀ rows : List AddressRow)
    (updated : List DirtyAddress) : Prop where
  addresses : rows.map AddressRow.address = rows₀.map AddressRow.address
  eachRow : ∀ r ∈ rows, ∃ r₀ ∈ rows₀, r.address = r₀.address ∧
    r.balanceDirtyBlock = r₀.balanceDirtyBlock ∧
    (r = r₀ ∨ ∃ d ∈ dirty, d.address = r.address)
  released : ∀ d ∈ updated, d ∈ dirty ∧
    (∃ a ∈ accounts, a.info.address = d.address ∧ a.missing tokens = []) ∧
    ∀ r ∈ rows, r.address = d.address → ∃ a ∈ accounts, r.Shows a tokens

section store

variable (tokens : List String) (now : Nat) (a : FetchedBalanceAccount)
  (r : AddressRow)

@[simp]
theorem FetchedBalanceAccount.store_address :
    (a.store tokens now r).address = r.address := by
  dsimp only [FetchedBalanceAccount.store]

@[simp]
theorem FetchedBalanceAccount.store_balanceDirtyBlock :
    (a.store tokens now r).balanceDirtyBlock = r.balanceDirtyBlock := by
  dsimp only [FetchedBalanceAccount.store]

theorem FetchedBalanceAccount.store_shows (h : r.address = a.info.address) :
    (a.store tokens now r).Shows a tokens where
  address := h
  stakeTimestamp := rfl
  stakedAmountRaw := rfl
  unclaimedAmountRaw := rfl
  totalSoulAmount := rfl
  balances := rfl

end store

theorem Persisted.account {tokens : List String} {dirty : List DirtyAddress}
    {accounts : List FetchedBalanceAccount} {now : Nat}
    {rows₀ rows : List AddressRow} {updated : List DirtyAddress}
    (hp : Persisted tokens dirty accounts rows₀ rows updated)
    {a : FetchedBalanceAccount} (ha : a ∈ accounts) {d : DirtyAddress}
    (hd : d ∈ dirty) (hda : d.address = a.info.address) :
    Persisted tokens dirty accounts rows₀
      (upsertAddressAccount tokens now a rows)
      (if (a.missing tokens).isEmpty then updated ++ [d] else updated) := by
  have haddress : ∀ r : AddressRow,
      (if r.address == a.info.address then a.store tokens now r
        else r).address = r.address := by
    intro r
    split
    · exact a.store_address tokens now r
    · rfl
  -- what a row shows it goes on to show, except the account's own row
  have hrows : ∀ r' ∈ upsertAddressAccount tokens now a rows, ∃ r ∈ rows,
      r'.address = r.address ∧ (r' = r ∧ r.address ≠ a.info.address ∨
        r' = a.store tokens now r ∧ r.address = a.info.address) := by
    intro r' hr'
    obtain ⟨r, hr, rfl⟩ := List.mem_map.mp hr'
    refine ⟨r, hr, haddress r, ?_⟩
    split
    · next h => exact Or.inr ⟨rfl, beq_iff_eq.mp h⟩
    · next h => exact Or.inl ⟨rfl, fun heq => h (beq_iff_eq.mpr heq)⟩
  have hkept : ∀ d' ∈ updated, d' ∈ dirty ∧
      (∃ a ∈ accounts, a.info.address = d'.address ∧ a.missing tokens = []) ∧
      ∀ r ∈ upsertAddressAccount tokens now a rows,
        r.address = d'.address → ∃ a ∈ accounts, r.Shows a tokens := by
    intro d' hd'
    obtain ⟨h1, h2, h3⟩ := hp.released d' hd'
    refine ⟨h1, h2, ?_⟩
    intro r' hr' heq
    obtain ⟨r, hr, hra, ⟨rfl, -⟩ | ⟨rfl, hown⟩⟩ := hrows r' hr'
    · exact h3 r' hr heq
    · exact ⟨a, ha, a.store_shows tokens now r hown⟩
  refine ⟨?_, ?_, ?_⟩
  · rw [← hp.addresses, upsertAddressAccount, List.map_map]
    exact List.map_congr_left fun r _ => haddress r
  · intro r' hr'
    obtain ⟨r, hr, hra, hcase⟩ := hrows r' hr'
    obtain ⟨r₀, hr₀, h1, h2, h3⟩ := hp.eachRow r hr
    rcases hcase with ⟨rfl, -⟩ | ⟨rfl, heq⟩
    · exact ⟨r₀, hr₀, h1, h2, h3⟩
    · exact ⟨r₀, hr₀, hra.trans h1,
        (a.store_balanceDirtyBlock tokens now r).trans h2,
        Or.inr ⟨d, hd, (hda.trans heq.symm).trans hra.symm⟩⟩
  · intro d' hd'
    split at hd'
    · next hnone =>
        rcases List.mem_append.mp hd' with hd' | hd'
        · exact hkept d' hd'
        · rw [List.mem_singleton.mp hd']
          refine ⟨hd, ⟨a, ha, hda.symm, List.isEmpty_iff.mp hnone⟩, ?_⟩
          intro r' hr' heq
          obtain ⟨r, hr, hra, ⟨rfl, hne⟩ | ⟨rfl, hown⟩⟩ := hrows r' hr'
          · exact absurd (heq.trans hda) hne
          · exact ⟨a, ha, a.store_shows tokens now r hown⟩
    · exact hkept d' hd'

theorem Persisted.accounts {tokens : List String} {dirty : List DirtyAddress}
    {all : List FetchedBalanceAccount} (now : Nat) {rows₀ : List AddressRow}
    (accounts : List FetchedBalanceAccount) (hall : ∀ a ∈ accounts, a ∈ all)
    {rows : List AddressRow} {updated : List DirtyAddress}
    (hp : Persisted tokens dirty all rows₀ rows updated) :
    Persisted tokens dirty all rows₀
      (persistBalanceAccounts tokens now dirty accounts (rows, updated)).1
      (persistBalanceAccounts tokens now dirty accounts (rows, updated)).2 := by
  induction accounts generalizing rows updated with
  | nil => exact hp
  | cons a as ih =>
      have ha := hall a List.mem_cons_self
      have has := fun b hb => hall b (List.mem_cons_of_mem _ hb)
      rw [persistBalanceAccounts]
      split
      · exact ih has hp
      · next d hfind =>
          have hda : d.address = a.info.address := by
            simpa using List.find?_some hfind
          exact ih has (hp.account ha (List.mem_of_find?_eq_some hfind) hda)

theorem persisted (tokens : List String) (now : Nat)
    (dirty : List DirtyAddress) (accounts : List FetchedBalanceAccount)
    (rows : List AddressRow) :
    Persisted tokens dirty accounts rows
      (persistBalanceAccounts tokens now dirty accounts (rows, [])).1
      (persistBalanceAccounts tokens now dirty accounts (rows, [])).2 := by
  refine Persisted.accounts now accounts (fun _ h => h) ⟨rfl, ?_, ?_⟩
  · intro r hr
    exact ⟨r, hr, rfl, rfl, Or.inl rfl⟩
  · intro d hd
    cases hd

/-- Of a released stamp, the row shows an answer of the pass; if the pass has
one answer for the address, all its tokens are known. -/
theorem BalancesOk.released (hok : BalancesOk acts once s) {p : BalancePass}
    (hp : s.pass = some p) {tokens : List String} {now : Nat}
    (hpersist : .persist tokens now ∈ acts) (honce : once → p.AnsweredOnce)
    {rows : List AddressRow} {updated : List DirtyAddress}
    (hdone : Persisted tokens p.dirtyAddresses p.accounts s.rows rows updated)
    {d : DirtyAddress} (hd : d ∈ updated) {r : AddressRow} (hr : r ∈ rows)
    (hrd : r.address = d.address) : r.ReadSince acts once p.tipAtFetch := by
  obtain ⟨-, ⟨b, hb, hbd, hmissing⟩, hshows⟩ := hdone.released d hd
  obtain ⟨a, ha, hra⟩ := hshows r hr hrd
  obtain ⟨hinfo, hread, hanswered⟩ := (hok.pass p hp).accounts a ha
  refine ⟨a, tokens, now, hanswered, hpersist, hinfo, hread, hra, ?_⟩
  intro h
  have hsame : a.info.address = b.info.address :=
    hra.address.symm.trans (hrd.trans hbd.symm)
  rw [List.inj_on_of_nodup_map (honce h) ha hb hsame]
  exact hmissing

theorem BalancesOk.persist (hok : BalancesOk acts once s) {p : BalancePass}
    (hp : s.pass = some p) {tokens : List String} {now : Nat}
    (hpersist : .persist tokens now ∈ acts)
    (honce : once → p.AnsweredOnce) :
    BalancesOk acts once
      { s with
        rows := (persistBalanceAccounts tokens now p.dirtyAddresses p.accounts
          (s.rows, [])).1
        pass := some
          { p with
            phase := .stored tokens (persistBalanceAccounts tokens now
              p.dirtyAddresses p.accounts (s.rows, [])).2 } } := by
  have hpass := hok.pass p hp
  have hdone := persisted tokens now p.dirtyAddresses p.accounts s.rows
  generalize persistBalanceAccounts tokens now p.dirtyAddresses p.accounts
    (s.rows, []) = done at hdone ⊢
  have hrow : ∀ {a}, (∃ r ∈ s.rows, r.address = a) →
      ∃ r ∈ done.1, r.address = a := by
    intro a h
    have hmem : a ∈ done.1.map AddressRow.address := by
      rw [hdone.addresses]
      obtain ⟨r, hr, rfl⟩ := h
      exact List.mem_map_of_mem hr
    exact List.mem_map.mp hmem
  refine ⟨?_, ?_, hok.touchTip, fun a h hx => hrow (hok.touchRow a h hx), ?_,
    ?_⟩
  · rw [hdone.addresses]
    exact hok.distinct
  · intro r hr
    obtain ⟨r₀, hr₀, -, hflag, -⟩ := hdone.eachRow r hr
    rw [hflag]
    exact hok.flags r₀ hr₀
  · intro r hr hne hzero h hx
    obtain ⟨r₀, hr₀, ha, hflag, rfl | ⟨d, hd, hda⟩⟩ := hdone.eachRow r hr
    · exact hok.clean r hr₀ hne hzero h hx
    · -- the row of an address of the batch keeps its stamp through the pass
      have hstamp := (hpass.stamps d hd r₀ hr₀ (ha.symm.trans hda.symm)).1
      have hpos := (hpass.batch d hd).2.1
      omega
  · intro q hq
    cases hq
    refine ⟨?_, ?_, hpass.tip, hpass.infos, hpass.accounts, ?_⟩
    · intro d hd
      obtain ⟨h1, h2, h3, h4⟩ := hpass.batch d hd
      exact ⟨h1, h2, h3, hrow h4⟩
    · intro d hd r hr hda
      obtain ⟨r₀, hr₀, ha, hflag, -⟩ := hdone.eachRow r hr
      rw [hflag, ha]
      exact hpass.stamps d hd r₀ hr₀ (ha.symm.trans hda)
    · intro tokens' updated hphase
      cases hphase
      intro d hd
      obtain ⟨h1, h2, -⟩ := hdone.released d hd
      exact ⟨h1, h2, fun r hr hrd =>
        hok.released hp hpersist honce hdone hd hr hrd⟩

/-- The compare-and-reset. -/
theorem BalancesOk.reset (hok : BalancesOk acts once s) {p : BalancePass}
    (hp : s.pass = some p) {tokens : List String} {updated : List DirtyAddress}
    (hphase : p.phase = .stored tokens updated) :
    BalancesOk acts once
      { s with
        rows := resetDirtyBalanceFlags updated s.rows
        pass := none } := by
  have hpass := hok.pass p hp
  have haddress : ∀ r : AddressRow, (if updated.any fun d =>
      d.address == r.address && d.balanceDirtyBlock == r.balanceDirtyBlock
      then { r with balanceDirtyBlock := 0 } else r).address = r.address := by
    intro r
    split <;> rfl
  refine ⟨?_, ?_, hok.touchTip, ?_, ?_, by intro q hq; cases hq⟩
  · have hsame : (resetDirtyBalanceFlags updated s.rows).map
        AddressRow.address = s.rows.map AddressRow.address := by
      rw [resetDirtyBalanceFlags, List.map_map]
      exact List.map_congr_left fun r _ => haddress r
    rw [hsame]
    exact hok.distinct
  · intro r' hr'
    obtain ⟨r, hr, rfl⟩ := List.mem_map.mp hr'
    have hflag := hok.flags r hr
    split
    · exact Nat.zero_le _
    · exact hflag
  · intro a h hx
    obtain ⟨r, hr, ha⟩ := hok.touchRow a h hx
    exact ⟨_, List.mem_map_of_mem hr, (haddress r).trans ha⟩
  · intro r' hr' hne hzero h hx
    obtain ⟨r, hr, rfl⟩ := List.mem_map.mp hr'
    rw [haddress] at hne hx
    split at hzero
    · next hany =>
        obtain ⟨d, hd, hmatch⟩ := List.any_eq_true.mp hany
        simp only [Bool.and_eq_true, beq_iff_eq] at hmatch
        obtain ⟨hbatch, -, hread⟩ := hpass.stored tokens updated hphase d hd
        have hstamp := hpass.stamps d hbatch r hr hmatch.1.symm
        have hle := hstamp.2 hmatch.2.symm h hx
        obtain ⟨account, tokens', now, h1, h2, h3, h4, h5, h6⟩ :=
          (hread r hr hmatch.1.symm).mono hle
        rw [if_pos hany]
        exact ⟨account, tokens', now, h1, h2, h3, h4,
          ⟨h5.address, h5.stakeTimestamp, h5.stakedAmountRaw,
            h5.unclaimedAmountRaw, h5.totalSoulAmount, h5.balances⟩, h6⟩
    · next hany =>
        rw [if_neg hany]
        exact hok.clean r hr hne hzero h hx

/-! ## Runs -/

/-- A step of the pass that changes neither rows nor touches. -/
theorem BalancesOk.withPass (hok : BalancesOk acts once s)
    {q : Option BalancePass}
    (hq : ∀ p, q = some p → BalancePassOk acts once s p) :
    BalancesOk acts once { s with pass := q } :=
  ⟨hok.distinct, hok.flags, hok.touchTip, hok.touchRow, hok.clean,
    fun p hp => ⟨(hq p hp).batch, (hq p hp).stamps, (hq p hp).tip,
      (hq p hp).infos, (hq p hp).accounts, (hq p hp).stored⟩⟩

theorem BalancesOk.passMove (hok : BalancesOk acts once s) {a : BalanceAct}
    (ha : a ∈ acts) {q : Option BalancePass} (h : PassMove s a q) :
    BalancesOk acts once { s with pass := q } := by
  refine hok.withPass fun q' hq => ?_
  cases h with
  | @account p info hp hread =>
      have hpass := hok.pass p hp
      cases hq
      refine ⟨hpass.batch, hpass.stamps, hpass.tip, ?_, hpass.accounts,
        hpass.stored⟩
      intro i hi
      rcases List.mem_append.mp hi with hi | hi
      · exact hpass.infos i hi
      · rw [List.mem_singleton.mp hi]
        exact ⟨le_trans hpass.tip hread, ha⟩
  | @accountsDone p hp =>
      have hpass := hok.pass p hp
      cases hq
      exact ⟨hpass.batch, hpass.stamps, hpass.tip, hpass.infos,
        hpass.accounts, by intro _ _ hphase; cases hphase⟩
  | @balances p info balances read hp hphase hinfo hread =>
      have hpass := hok.pass p hp
      cases hq
      refine ⟨hpass.batch, hpass.stamps, hpass.tip,
        fun i hi => hpass.infos i (List.mem_of_mem_erase hi), ?_, ?_⟩
      · intro b hb
        rcases List.mem_append.mp hb with hb | hb
        · exact hpass.accounts b hb
        · rw [List.mem_singleton.mp hb]
          obtain ⟨hasked, hanswered⟩ := hpass.infos info hinfo
          exact ⟨hasked, le_trans hpass.tip hread, hanswered, ha⟩
      · intro tokens updated hstored
        exact absurd (hphase.symm.trans hstored) (by intro h; cases h)
  | @balancesFailed p info hp =>
      have hpass := hok.pass p hp
      cases hq
      exact ⟨hpass.batch, hpass.stamps, hpass.tip,
        fun i hi => hpass.infos i (List.mem_of_mem_erase hi),
        hpass.accounts, hpass.stored⟩
  | cancel => cases hq

theorem BalancesOk.step (hok : BalancesOk acts once s) {a : BalanceAct}
    (ha : a ∈ acts) (honce : once → ∀ p, s.pass = some p → p.AnsweredOnce)
    (h : BalanceStep s a s') : BalancesOk acts once s' := by
  cases balanceStep_moves h with
  | @block height touched hlt =>
      exact hok.commit touched (by omega) (by omega) (le_refl _)
  | @reproject height touched hpos hle =>
      exact hok.commit touched hpos (le_refl _) hle
  | markAll =>
      have hraise := hok.raise (markAll_raises s.tip) (le_refl _) (le_refl _)
        (fun hne => absurd rfl hne) (by intro a ha; cases ha)
      rw [List.map_nil, List.append_nil] at hraise
      exact hraise
  | @begin rpcTip => exact hok.begin rpcTip
  | pass hpass => exact hok.passMove ha hpass
  | @persist p tokens now hp =>
      exact hok.persist hp ha fun h => honce h p hp
  | reset hp hphase => exact hok.reset hp hphase

/-! ## Who may clear a stamp -/

/-- No stamp is lower than it was. -/
def NotLowered (rows rows' : List AddressRow) : Prop :=
  ∀ r ∈ rows, ∀ r' ∈ rows', r'.address = r.address →
    r.balanceDirtyBlock ≤ r'.balanceDirtyBlock

theorem notLowered_of_map (hok : BalancesOk acts once s)
    {f : AddressRow → AddressRow}
    (haddress : ∀ r, (f r).address = r.address)
    (hle : ∀ r, r.balanceDirtyBlock ≤ (f r).balanceDirtyBlock) :
    NotLowered s.rows (s.rows.map f) := by
  intro r hr r' hr' heq
  obtain ⟨r₀, hr₀, rfl⟩ := List.mem_map.mp hr'
  rw [haddress] at heq
  rw [← hok.unique hr₀ hr heq]
  exact hle r₀

theorem notLowered_refl (hok : BalancesOk acts once s) :
    NotLowered s.rows s.rows := by
  intro r hr r' hr' heq
  rw [hok.unique hr' hr heq]

theorem notLowered_commit (hok : BalancesOk acts once s) (height : Nat)
    (touched : List String) :
    NotLowered s.rows (s.commit height touched).rows := by
  obtain ⟨hins, -⟩ := hok.insert touched
  obtain ⟨new, heq, -, -, -⟩ := insertAddresses_spec touched s.rows
  have hraises := markBlock_raises touched height
  intro r hr
  refine notLowered_of_map hins hraises.address hraises.le r ?_
  simp only [heq]
  exact List.mem_append_left _ hr

theorem notLowered_persist (hok : BalancesOk acts once s) (p : BalancePass)
    (tokens : List String) (now : Nat) :
    NotLowered s.rows (persistBalanceAccounts tokens now p.dirtyAddresses
      p.accounts (s.rows, [])).1 := by
  intro r hr r' hr' heq
  obtain ⟨r₀, hr₀, ha, hflag, -⟩ :=
    (persisted tokens now p.dirtyAddresses p.accounts s.rows).eachRow r' hr'
  rw [hflag, hok.unique hr₀ hr (ha.symm.trans heq)]

/-- Only the reset clears a stamp, and only of an address whose account and
balances were both fetched in this pass and named known tokens only. -/
theorem stamp_cleared (hok : BalancesOk acts once s) {a : BalanceAct}
    (h : BalanceStep s a s') {r r' : AddressRow} (hr : r ∈ s.rows)
    (hr' : r' ∈ s'.rows) (heq : r'.address = r.address)
    (hlow : r'.balanceDirtyBlock < r.balanceDirtyBlock) :
    a = .reset ∧ ∃ p tokens updated, s.pass = some p ∧
      p.phase = .stored tokens updated ∧
      ∃ account ∈ p.accounts, account.info.address = r.address ∧
        account.missing tokens = [] := by
  have hnot : ¬ NotLowered s.rows s'.rows := fun hn =>
    absurd (hn r hr r' hr' heq) (by omega)
  cases balanceStep_moves h with
  | @block height touched hlt =>
      exact absurd (notLowered_commit hok height touched) hnot
  | @reproject height touched hpos hle =>
      exact absurd (notLowered_commit hok height touched) hnot
  | markAll =>
      have hraises := markAll_raises s.tip
      exact absurd (notLowered_of_map hok hraises.address hraises.le) hnot
  | @begin rpcTip =>
      refine absurd ?_ hnot
      rw [s.begin_rows rpcTip]
      exact notLowered_refl hok
  | pass hpass => exact absurd (notLowered_refl hok) hnot
  | @persist p tokens now hp =>
      exact absurd (notLowered_persist hok p tokens now) hnot
  | @reset p tokens updated hp hphase =>
      refine ⟨rfl, p, tokens, updated, hp, hphase, ?_⟩
      obtain ⟨r₀, hr₀, rfl⟩ := List.mem_map.mp hr'
      split at hlow
      · next hany =>
          obtain ⟨d, hd, hmatch⟩ := List.any_eq_true.mp hany
          simp only [Bool.and_eq_true, beq_iff_eq] at hmatch
          obtain ⟨-, ⟨account, hmem, haddress, hmissing⟩, -⟩ :=
            (hok.pass p hp).stored tokens updated hphase d hd
          rw [if_pos hany] at heq
          exact ⟨account, hmem, (haddress.trans hmatch.1).trans heq, hmissing⟩
      · next hany =>
          rw [if_neg hany] at heq
          rw [hok.unique hr₀ hr heq] at hlow
          exact absurd hlow (lt_irrefl _)

/-! ## The main statement -/

/-- A database the worker may find: one row for each address, no stamp above
the highest committed height, and no pass under way. -/
structure BalancesStart (s : BalanceSync) : Prop where
  distinct : (s.rows.map AddressRow.address).Nodup
  flags : ∀ r ∈ s.rows, r.balanceDirtyBlock ≤ s.tip
  touches : s.touches = []
  pass : s.pass = none

theorem BalancesStart.ok (h : BalancesStart s) : BalancesOk acts once s where
  distinct := h.distinct
  flags := h.flags
  touchTip := by rw [h.touches]; intro a x hx; cases hx
  touchRow := by rw [h.touches]; intro a x hx; cases hx
  clean := by rw [h.touches]; intro r _ _ _ x hx; cases hx
  pass := by rw [h.pass]; intro p hp; cases hp

/-- In no pass of the run does the node answer twice for an address. -/
def AnsweredOnce (s₀ : BalanceSync) (acts : List BalanceAct) : Prop :=
  ∀ pre post s p, acts = pre ++ post → Steps BalanceStep s₀ pre s →
    s.pass = some p → p.AnsweredOnce

theorem BalancesOk.run {s₀ : BalanceSync} (hstart : BalancesStart s₀)
    (hrun : Steps BalanceStep s₀ acts s) :
    BalancesOk acts (AnsweredOnce s₀ acts) s := by
  refine hrun.invariant_prefix
    (I := fun _ => BalancesOk acts (AnsweredOnce s₀ acts)) ?_ hstart.ok
  intro pre a post s₁ s₂ heq hpre hok hstep
  refine hok.step ?_ ?_ hstep
  · rw [heq]
    exact List.mem_append_right _ List.mem_cons_self
  · intro h p hp
    exact h pre (a :: post) s₁ p heq hpre hp

/-- In every order of block commits, projections of older heights and steps of
the pass: the row of an address whose stamp is clear shows, for every height at
which a committed block touched the address, an answer that the node gave in
the run, for the stake and for the balances from a state at or above that
height; and a step lowers a stamp only where the running pass has fetched both
the account and the balances of the address and every token they name is
known. -/
theorem dirty_marks_are_not_lost (s₀ s : BalanceSync) (acts : List BalanceAct)
    (hstart : BalancesStart s₀) (hrun : Steps BalanceStep s₀ acts s) :
    (∀ r ∈ s.rows, r.address ≠ "NULL" → r.balanceDirtyBlock = 0 →
      ∀ h, (r.address, h) ∈ s.touches →
        ∃ account tokens now,
          .account account.info ∈ acts ∧
          .balances account.info account.balances account.read ∈ acts ∧
          .persist tokens now ∈ acts ∧
          h ≤ account.info.read ∧ h ≤ account.read ∧
          r.Shows account tokens ∧
          (AnsweredOnce s₀ acts → account.missing tokens = [])) ∧
    (∀ a h, (a, h) ∈ s.touches → ∃ r ∈ s.rows, r.address = a) ∧
    ∀ act s', BalanceStep s act s' → ∀ r ∈ s.rows, ∀ r' ∈ s'.rows,
      r'.address = r.address → r'.balanceDirtyBlock < r.balanceDirtyBlock →
      act = .reset ∧ ∃ p tokens updated, s.pass = some p ∧
        p.phase = .stored tokens updated ∧
        ∃ account ∈ p.accounts, account.info.address = r.address ∧
          account.missing tokens = [] := by
  have hok := BalancesOk.run hstart hrun
  refine ⟨?_, hok.touchRow, ?_⟩
  · intro r hr hne hzero h hx
    obtain ⟨account, tokens, now, ⟨hinfo, hbalances⟩, hrest⟩ :=
      hok.clean r hr hne hzero h hx
    exact ⟨account, tokens, now, hinfo, hbalances, hrest⟩
  · intro act s' hstep r hr r' hr' heq hlow
    exact stamp_cleared hok hstep hr hr' heq hlow

/-! ## A pass with a block in between -/

def emptyBalances : BalanceSync where
  chain := "main"
  tip := 6422526
  rows := []
  pass := none
  touches := []

def infoAt (address : String) (read : Nat) : AccountInfo where
  address := address
  name := "anonymous"
  stakeAmount := 10
  stakeTime := 0
  stakeUnclaimed := 0
  read := read

/-- A block touches two addresses; while the pass reads them, the next block
touches the first of them again. -/
def overlappingActs : List BalanceAct :=
  [.block 6422527 ["P1", "P2"], .begin 6422527, .account (infoAt "P1" 6422527),
    .account (infoAt "P2" 6422527), .accountsDone,
    .balances (infoAt "P1" 6422527) [⟨"SOUL", 5⟩] 6422527,
    .block 6422528 ["P1"],
    .balances (infoAt "P2" 6422527) [⟨"SOUL", 7⟩] 6422528,
    .persist ["SOUL"] 0, .reset]

/-- Only the address that was not touched again comes out clean, and its row
shows the answers of the pass. -/
theorem dirty_marks_overlapping_block :
    ∃ s, Steps BalanceStep emptyBalances overlappingActs s ∧
      s.rows.map (fun r => (r.address, r.balanceDirtyBlock)) =
        [("P1", 6422528), ("P2", 0)] ∧
      s.rows.map (fun r => (r.stakedAmountRaw, r.totalSoulAmount,
        r.balances)) = [(10, 15, [⟨"SOUL", 5⟩]), (10, 17, [⟨"SOUL", 7⟩])] ∧
      ∀ r ∈ s.rows, r.address ≠ "NULL" → r.balanceDirtyBlock = 0 →
        ∀ h, (r.address, h) ∈ s.touches →
          ∃ account tokens now,
            .account account.info ∈ overlappingActs ∧
            .balances account.info account.balances account.read ∈
              overlappingActs ∧
            .persist tokens now ∈ overlappingActs ∧
            h ≤ account.info.read ∧ h ≤ account.read ∧
            r.Shows account tokens ∧
            (AnsweredOnce emptyBalances overlappingActs →
              account.missing tokens = []) := by
  have hend : (runSteps balanceStep emptyBalances overlappingActs).map (fun s =>
      (s.rows.map fun r => (r.address, r.balanceDirtyBlock),
        s.rows.map fun r => (r.stakedAmountRaw, r.totalSoulAmount,
          r.balances))) =
      some ([("P1", 6422528), ("P2", 0)],
        [(10, 15, [⟨"SOUL", 5⟩]), (10, 17, [⟨"SOUL", 7⟩])]) := by
    decide +kernel
  obtain ⟨s, hs, hrows⟩ := Option.map_eq_some_iff.mp hend
  have hrun : Steps BalanceStep emptyBalances overlappingActs s :=
    steps_of_runSteps hs
  have hstart : BalancesStart emptyBalances :=
    ⟨List.nodup_nil, (by intro r hr; cases hr), rfl, rfl⟩
  obtain ⟨hclean, -, -⟩ := dirty_marks_are_not_lost emptyBalances s
    overlappingActs hstart hrun
  exact ⟨s, hrun, congrArg Prod.fst hrows, congrArg Prod.snd hrows, hclean⟩

end Explorer.Ref

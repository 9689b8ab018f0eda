import Explorer.Ref.Prices

/-!
# Days that the price backfill leaves behind

A pass starts after the greatest stored day, so a day counts as done as soon as
a row of it, or of a later one, is stored. What the pass did not have by then
nothing asks for again: a symbol behind a rate limit, one whose close came to be
known later, one whose token was created later. Where every pass that stores
something of a day has all prices of that day and of the ones it went through
before it, every day up to the greatest stored one is complete, and that is what
a pass keeps.

Completeness is judged by the closes the service has, and the tokens there are,
when the table is looked at, and not by those a pass met.
-/

namespace Explorer.Ref

section

variable {π : Type} (closes : String → Int → Bool) (tokens : List String)

/-! ## The property -/

/-- There is a close for the symbol and the day, in a history that is served. -/
def HasClose (symbol : String) (day : Int) : Prop :=
  ∃ coinId, historyId symbol = some coinId ∧ closes coinId day = true

/-- The day of the greatest date that is stored. -/
def latestDay (rows : List (DailyPrice π)) : Option Int :=
  (latestTokenDailyPriceDate rows).bind dateNaive

/-- Every symbol with a token and a close on the day has its row. -/
def DayComplete (rows : List (DailyPrice π)) (day : Int) : Prop :=
  ∀ symbol ∈ pricedSymbols, symbol ∈ tokens → HasClose closes symbol day →
    ∃ row ∈ rows, row.symbol = symbol ∧
      row.dateUnixSeconds = day * daySeconds

/-- No day between the anchor and a later stored day lacks a row. -/
def NoneSkipped (start rows : List (DailyPrice π)) : Prop :=
  ∀ anchor latest later earlier, latestDay start = some anchor →
    latestDay rows = some latest → later ≤ latest → earlier < later →
    anchor < earlier → DayComplete closes tokens rows earlier

/-! ## What a pass leaves -/

def CloseAnswer.isRateLimited : CloseAnswer π → Bool
  | .rateLimited => true
  | _ => false

/-- The symbols that a pass asks for on a day, up to a rate limit. -/
def PricePass.asked (pass : PricePass π) (day : Int) (symbols : List String) :
    List String :=
  (symbols.filter fun symbol => (historyId symbol).isSome).takeWhile
    fun symbol => !(pass.answer day symbol).isRateLimited

/-- The pass is told a price for the symbol. -/
def PricePass.Prices (pass : PricePass π) (day : Int) (symbol : String) :
    Prop :=
  symbol ∈ pass.asked day pricedSymbols ∧
    ∃ usd, pass.answer day symbol = .price usd

/-- Of the day, the symbol is one of those to store: it has a token, and a price
or that of `SOUL`. -/
def PricePass.Stores (pass : PricePass π) (day : Int) (symbol : String) :
    Prop :=
  symbol ∈ pass.tokens day ∧
    (pass.Prices day symbol ∨ symbol = "GOATI" ∧ pass.Prices day "SOUL")

/-- The rows of the day are written. -/
def PricePass.Writes (pass : PricePass π) (day : Int) : Prop :=
  pass.write day = true ∧ ∀ symbol ∈ pass.asked day pricedSymbols,
    pass.answer day symbol ≠ .failed

/-- The pass goes on to the next day. -/
def PricePass.GoesThrough (pass : PricePass π) (day : Int) : Prop :=
  ∀ symbol ∈ pricedSymbols, (historyId symbol).isSome →
    pass.answer day symbol ≠ .rateLimited ∧
    pass.answer day symbol ≠ .failed ∧
    ∀ usd, pass.answer day symbol = .price usd → pass.write day = true

/-- A pass that starts after the latest day comes to this one. -/
def PricePass.ComesTo (pass : PricePass π) (latest day : Int) : Prop :=
  latest < day ∧ day ≤ latest + tokenPriceDailyBackfillMaxDaysPerRun ∧
    day ≤ pass.today ∧
    ∀ before, latest < before → before < day → pass.GoesThrough before

/-- All that is to be had of the day, the pass has. -/
def PricePass.Settles (pass : PricePass π) (day : Int) : Prop :=
  ∀ symbol ∈ pricedSymbols, symbol ∈ tokens → HasClose closes symbol day →
    pass.Stores day symbol

/-- Where the pass stores something of a day, it has all that is to be had of
that day and of the days it went through before. -/
def PricePass.LeavesNone (pass : PricePass π) (rows : List (DailyPrice π)) :
    Prop :=
  ∀ latest earlier later symbol, latestDay rows = some latest →
    latest < earlier → earlier ≤ later → pass.ComesTo latest later →
    pass.Writes later → pass.Stores later symbol →
    pass.Settles closes tokens earlier

/-- The states of the table in a run of passes that leave nothing behind. A pass
that is cancelled between two days is one whose next request fails. -/
inductive Reaches (start : List (DailyPrice π)) : List (DailyPrice π) → Prop
  | start : Reaches start start
  | pass {rows : List (DailyPrice π)} (pass : PricePass π) :
      Reaches start rows → pass.LeavesNone closes tokens rows →
      Reaches start (backfillDailyPrices pass rows).2

end

section

variable {π : Type} {closes : String → Int → Bool} {tokens : List String}
  {pass : PricePass π}

/-! ## The table -/

theorem latest_spec {rows : List (DailyPrice π)} {latest : Int}
    (h : latestTokenDailyPriceDate rows = some latest) :
    (∃ row ∈ rows, row.dateUnixSeconds = latest) ∧
      ∀ row ∈ rows, row.dateUnixSeconds ≤ latest := by
  induction rows generalizing latest with
  | nil => cases h
  | cons row rest ih =>
      rw [latestTokenDailyPriceDate] at h
      cases hrest : latestTokenDailyPriceDate rest with
      | none =>
          rw [hrest] at h
          cases h
          have hnil : rest = [] := by
            cases rest with
            | nil => rfl
            | cons r rest =>
                rw [latestTokenDailyPriceDate] at hrest
                split at hrest <;> cases hrest
          subst hnil
          simp
      | some greatest =>
          rw [hrest] at h
          cases h
          obtain ⟨⟨r, hr, hdate⟩, hle⟩ := ih hrest
          split
          · rename_i hcmp
            refine ⟨⟨row, List.mem_cons_self, rfl⟩, fun x hx => ?_⟩
            rcases List.mem_cons.mp hx with rfl | hx
            · exact Int.le_refl _
            · exact (hle x hx).trans hcmp
          · rename_i hcmp
            refine ⟨⟨r, List.mem_cons_of_mem _ hr, hdate⟩, fun x hx => ?_⟩
            rcases List.mem_cons.mp hx with rfl | hx
            · omega
            · exact hle x hx

theorem sameDay_iff {a b : DailyPrice π} :
    sameDay a b = true ↔
      a.symbol = b.symbol ∧ a.dateUnixSeconds = b.dateUnixSeconds := by
  simp [sameDay]

/-- An update keeps the key of its row. -/
theorem updated_key {resolved : List (DailyPrice π)} (row : DailyPrice π) :
    (match resolved.find? (sameDay row) with
      | some price => { row with priceUsd := price.priceUsd }
      | none => row).symbol = row.symbol ∧
    (match resolved.find? (sameDay row) with
      | some price => { row with priceUsd := price.priceUsd }
      | none => row).dateUnixSeconds = row.dateUnixSeconds := by
  split <;> exact ⟨rfl, rfl⟩

/-- The keys of the rows after a write: those before it, and those of the
prices that have a token. -/
theorem mem_upsert_iff {rows prices : List (DailyPrice π)} {symbol : String}
    {date : Int} :
    (∃ row ∈ (upsertTokenDailyPrices tokens rows prices).1,
      row.symbol = symbol ∧ row.dateUnixSeconds = date) ↔
      (∃ row ∈ rows, row.symbol = symbol ∧ row.dateUnixSeconds = date) ∨
      ∃ price ∈ prices, price.symbol = symbol ∧
        price.dateUnixSeconds = date ∧ symbol ∈ tokens := by
  have hkept := @updated_key π (prices.filter fun p => p.symbol ∈ tokens)
  simp only [upsertTokenDailyPrices, List.mem_append, List.mem_map]
  constructor
  · rintro ⟨row, ⟨old, hold, rfl⟩ | hrow, hsymbol, hdate⟩
    · exact .inl ⟨old, hold, (hkept old).1.symm.trans hsymbol,
        (hkept old).2.symm.trans hdate⟩
    · simp only [List.mem_filter, decide_eq_true_eq] at hrow
      exact .inr ⟨row, hrow.1.1, hsymbol, hdate, hsymbol ▸ hrow.1.2⟩
  · rintro (⟨row, hrow, hsymbol, hdate⟩ |
      ⟨price, hprice, hsymbol, hdate, htoken⟩)
    · exact ⟨_, .inl ⟨row, hrow, rfl⟩, (hkept row).1.trans hsymbol,
        (hkept row).2.trans hdate⟩
    · -- A price whose key is stored updates a row, and else inserts one.
      by_cases hstored : rows.any (sameDay price) = true
      · obtain ⟨row, hrow, hsame⟩ := List.any_eq_true.mp hstored
        rw [sameDay_iff] at hsame
        exact ⟨_, .inl ⟨row, hrow, rfl⟩,
          (hkept row).1.trans (hsame.1.symm.trans hsymbol),
          (hkept row).2.trans (hsame.2.symm.trans hdate)⟩
      · refine ⟨price, .inr ?_, hsymbol, hdate⟩
        simp only [List.mem_filter, decide_eq_true_eq]
        exact ⟨⟨hprice, hsymbol ▸ htoken⟩, by simpa using hstored⟩

/-! ## A day -/

section asked

variable {day : Int} {symbol : String} {rest : List String}

theorem asked_unserved (h : historyId symbol = none) :
    pass.asked day (symbol :: rest) = pass.asked day rest := by
  rw [PricePass.asked, List.filter_cons, h, if_neg (by simp), PricePass.asked]

theorem asked_limited (h : (historyId symbol).isSome)
    (hanswer : pass.answer day symbol = .rateLimited) :
    pass.asked day (symbol :: rest) = [] := by
  rw [PricePass.asked, List.filter_cons, if_pos h,
    List.takeWhile_cons_of_neg (by simp [hanswer, CloseAnswer.isRateLimited])]

theorem asked_cons (h : (historyId symbol).isSome)
    (hanswer : (pass.answer day symbol).isRateLimited = false) :
    pass.asked day (symbol :: rest) = symbol :: pass.asked day rest := by
  rw [PricePass.asked, List.filter_cons, if_pos h,
    List.takeWhile_cons_of_pos (by simp [hanswer]), PricePass.asked]

end asked

/-- What the loop over the symbols has when it ends. -/
structure DayFetched (pass : PricePass π) (day : Int) (symbols : List String)
    (loop loop' : DayLoop π) : Prop where
  answered : ∀ s ∈ pass.asked day symbols, pass.answer day s ≠ .failed
  rows : ∀ row, row ∈ loop'.dayRows ↔ row ∈ loop.dayRows ∨
    ∃ s ∈ pass.asked day symbols, ∃ usd, pass.answer day s = .price usd ∧
      row = ⟨s, day * daySeconds, usd⟩
  soul : loop'.soulUsd.isSome ↔ loop.soulUsd.isSome ∨
    "SOUL" ∈ pass.asked day symbols ∧
      ∃ usd, pass.answer day "SOUL" = .price usd
  ended : loop'.rateLimited = false → ∀ s ∈ symbols, (historyId s).isSome →
    pass.answer day s ≠ .rateLimited ∧ s ∈ pass.asked day symbols

/-- A symbol that is answered, with a price or without. -/
theorem DayFetched.next {day : Int} {symbol : String} {rest : List String}
    {loop loop₁ loop' : DayLoop π}
    (hrest : DayFetched pass day rest loop₁ loop')
    (hserved : (historyId symbol).isSome)
    (hfree : (pass.answer day symbol).isRateLimited = false)
    (hfailed : pass.answer day symbol ≠ .failed)
    (hrows : ∀ row, row ∈ loop₁.dayRows ↔ row ∈ loop.dayRows ∨
      ∃ usd, pass.answer day symbol = .price usd ∧
        row = ⟨symbol, day * daySeconds, usd⟩)
    (hsoul : loop₁.soulUsd.isSome ↔ loop.soulUsd.isSome ∨
      symbol = "SOUL" ∧ ∃ usd, pass.answer day symbol = .price usd) :
    DayFetched pass day (symbol :: rest) loop loop' := by
  have hlimit : pass.answer day symbol ≠ .rateLimited := by
    intro h
    rw [h] at hfree
    cases hfree
  refine ⟨?_, ?_, ?_, ?_⟩ <;> rw [asked_cons hserved hfree]
  · intro s hs
    rcases List.mem_cons.mp hs with rfl | hs
    · exact hfailed
    · exact hrest.answered s hs
  · intro row
    rw [hrest.rows row, hrows row, or_assoc]
    simp
  · rw [hrest.soul, hsoul, or_assoc]
    refine or_congr Iff.rfl ?_
    by_cases h : symbol = "SOUL"
    · subst h
      simp
    · simp [h, Ne.symm h]
  · intro hfree s hs hserved
    rcases List.mem_cons.mp hs with rfl | hs
    · exact ⟨hlimit, List.mem_cons_self⟩
    · obtain ⟨hlimit, hmem⟩ := hrest.ended hfree s hs hserved
      exact ⟨hlimit, List.mem_cons_of_mem _ hmem⟩

theorem fetchDay_fetched {day : Int} {symbols : List String}
    {loop loop' : DayLoop π}
    (h : fetchDay pass day symbols loop = some loop') :
    DayFetched pass day symbols loop loop' := by
  induction symbols generalizing loop with
  | nil =>
      cases h
      exact ⟨by simp [PricePass.asked], by simp [PricePass.asked],
        by simp [PricePass.asked], by simp⟩
  | cons symbol rest ih =>
      rw [fetchDay] at h
      cases hid : historyId symbol with
      | none =>
          simp only [hid] at h
          have hrest := ih h
          refine ⟨?_, ?_, ?_, ?_⟩ <;> rw [asked_unserved hid]
          · exact hrest.answered
          · exact hrest.rows
          · exact hrest.soul
          · intro hfree s hs hserved
            rcases List.mem_cons.mp hs with rfl | hs
            · rw [hid] at hserved
              cases hserved
            · exact hrest.ended hfree s hs hserved
      | some coinId =>
          have hserved : (historyId symbol).isSome := by rw [hid]; rfl
          simp only [hid] at h
          cases hanswer : pass.answer day symbol with
          | failed =>
              simp only [hanswer] at h
              cases h
          | rateLimited =>
              simp only [hanswer] at h
              cases h
              refine ⟨?_, ?_, ?_, ?_⟩ <;> rw [asked_limited hserved hanswer]
              · simp
              · simp
              · simp
              · intro hfree
                cases hfree
          | missing =>
              simp only [hanswer] at h
              refine (ih h).next hserved (by rw [hanswer]; rfl)
                (by simp [hanswer]) (fun row => ?_) ?_
              · simp [hanswer]
              · simp [hanswer]
          | price usd =>
              simp only [hanswer] at h
              refine (ih h).next hserved (by rw [hanswer]; rfl)
                (by simp [hanswer]) (fun row => ?_) ?_
              · simp [hanswer]
              · by_cases hsoul : symbol = "SOUL"
                · subst hsoul
                  simp [hanswer]
                · simp [hsoul]

/-! ## A written day -/

theorem mem_rows_iff {loop : DayLoop π} {day : Int} {row : DailyPrice π} :
    row ∈ loop.rows day ↔ row ∈ loop.dayRows ∨
      ∃ usd, loop.soulUsd = some usd ∧
        row = ⟨"GOATI", day * daySeconds, usd⟩ := by
  rw [DayLoop.rows]
  split
  · rename_i usd husd
    simp [husd]
  · rename_i hnone
    simp [hnone]

section written

variable {day : Int} {rows : List (DailyPrice π)} {loop : DayLoop π}
  (h : DayFetched pass day pricedSymbols ⟨[], none, false⟩ loop)

include h

/-- The keys of the rows of a day. -/
theorem mem_dayRows_iff (symbol : String) (date : Int) :
    (∃ price ∈ loop.rows day, price.symbol = symbol ∧
      price.dateUnixSeconds = date) ↔
      date = day * daySeconds ∧ (pass.Prices day symbol ∨
        symbol = "GOATI" ∧ pass.Prices day "SOUL") := by
  have hsoul : loop.soulUsd.isSome ↔ pass.Prices day "SOUL" := by
    rw [h.soul, PricePass.Prices]
    simp
  have hrows : ∀ row, row ∈ loop.dayRows ↔ ∃ s, pass.Prices day s ∧
      ∃ usd, pass.answer day s = .price usd ∧
        row = ⟨s, day * daySeconds, usd⟩ := by
    intro row
    rw [h.rows row]
    constructor
    · rintro (hnil | ⟨s, hs, usd, husd, rfl⟩)
      · cases hnil
      · exact ⟨s, ⟨hs, usd, husd⟩, usd, husd, rfl⟩
    · rintro ⟨s, ⟨hs, -⟩, usd, husd, rfl⟩
      exact .inr ⟨s, hs, usd, husd, rfl⟩
  constructor
  · rintro ⟨price, hprice, rfl, rfl⟩
    rcases mem_rows_iff.mp hprice with hprice | ⟨usd, husd, rfl⟩
    · obtain ⟨s, hs, usd, -, rfl⟩ := (hrows price).mp hprice
      exact ⟨rfl, .inl hs⟩
    · exact ⟨rfl, .inr ⟨rfl, hsoul.mp (by rw [husd]; rfl)⟩⟩
  · rintro ⟨rfl, hprices | ⟨rfl, hprices⟩⟩
    · obtain ⟨usd, husd⟩ := hprices.2
      exact ⟨_, mem_rows_iff.mpr (.inl ((hrows _).mpr
        ⟨symbol, hprices, usd, husd, rfl⟩)), rfl, rfl⟩
    · obtain ⟨usd, husd⟩ := Option.isSome_iff_exists.mp (hsoul.mpr hprices)
      exact ⟨_, mem_rows_iff.mpr (.inr ⟨usd, husd, rfl⟩), rfl, rfl⟩

/-- The keys that are stored after a day. -/
theorem mem_written_iff {symbol : String} {date : Int} :
    (∃ row ∈ (if (loop.rows day).isEmpty then (rows, 0)
        else upsertTokenDailyPrices (pass.tokens day) rows (loop.rows day)).1,
      row.symbol = symbol ∧ row.dateUnixSeconds = date) ↔
      (∃ row ∈ rows, row.symbol = symbol ∧ row.dateUnixSeconds = date) ∨
      date = day * daySeconds ∧ pass.Stores day symbol := by
  have hday := mem_dayRows_iff h symbol date
  split
  · next hempty =>
      refine ⟨.inl, ?_⟩
      rintro (hold | ⟨hdate, -, hprices⟩)
      · exact hold
      · obtain ⟨price, hprice, -⟩ := hday.mpr ⟨hdate, hprices⟩
        rw [List.isEmpty_iff.mp hempty] at hprice
        cases hprice
  · rw [mem_upsert_iff]
    refine or_congr Iff.rfl ⟨?_, ?_⟩
    · rintro ⟨price, hprice, hsymbol, hdate, htoken⟩
      obtain ⟨hdate, hprices⟩ := hday.mp ⟨price, hprice, hsymbol, hdate⟩
      exact ⟨hdate, htoken, hprices⟩
    · rintro ⟨hdate, htoken, hprices⟩
      obtain ⟨price, hprice, hsymbol, hdate⟩ := hday.mpr ⟨hdate, hprices⟩
      exact ⟨price, hprice, hsymbol, hdate, htoken⟩

theorem dayComplete_written {earlier : Int}
    (hcomplete : DayComplete closes tokens rows earlier) :
    DayComplete closes tokens
      (if (loop.rows day).isEmpty then (rows, 0)
        else upsertTokenDailyPrices (pass.tokens day) rows (loop.rows day)).1
      earlier := fun s hs htoken hclose =>
  (mem_written_iff h).mpr (.inl (hcomplete s hs htoken hclose))

/-- A day the pass has everything of is complete when it is written. -/
theorem dayComplete_settled (hsettles : pass.Settles closes tokens day) :
    DayComplete closes tokens
      (if (loop.rows day).isEmpty then (rows, 0)
        else upsertTokenDailyPrices (pass.tokens day) rows (loop.rows day)).1
      day := fun s hs htoken hclose =>
  (mem_written_iff h).mpr (.inr ⟨rfl, hsettles s hs htoken hclose⟩)

/-- A day with something to store has a price, and its rows are written. -/
theorem writes_of_stores {symbol : String} (hstores : pass.Stores day symbol)
    (hwrite : (loop.rows day).isEmpty = true ∨ pass.write day = true) :
    pass.Writes day := by
  refine ⟨hwrite.resolve_left ?_, h.answered⟩
  intro hempty
  obtain ⟨price, hprice, -⟩ := (mem_dayRows_iff h _ _).mpr ⟨rfl, hstores.2⟩
  rw [List.isEmpty_iff.mp hempty] at hprice
  cases hprice

end written

/-! ## A pass -/

theorem latestDay_spec {rows : List (DailyPrice π)} {latest : Int}
    (h : latestDay rows = some latest) :
    (∃ row ∈ rows, row.dateUnixSeconds / daySeconds = latest) ∧
      ∀ row ∈ rows, row.dateUnixSeconds / daySeconds < latest + 1 := by
  obtain ⟨date, hdate, hlatest⟩ := Option.bind_eq_some_iff.mp h
  obtain ⟨⟨row, hrow, rfl⟩, hle⟩ := latest_spec hdate
  rw [dateNaive] at hlatest
  split at hlatest
  · cases hlatest
    refine ⟨⟨row, hrow, rfl⟩, fun r hr => ?_⟩
    have := Int.ediv_le_ediv (show (0 : Int) < daySeconds by decide)
      (hle r hr)
    omega
  · cases hlatest

/-- Every day after the anchor, up to the greatest stored one, is complete. -/
def AllComplete (closes : String → Int → Bool) (tokens : List String)
    (anchor : Int) (rows : List (DailyPrice π)) : Prop :=
  ∀ earlier, anchor < earlier →
    (∃ row ∈ rows, earlier ≤ row.dateUnixSeconds / daySeconds) →
    DayComplete closes tokens rows earlier

/-- What holds when a pass from after `latest` comes to a day: besides the days
up to the greatest stored one, a day it went through is complete if it had all
of it, whether or not there was something to store. -/
structure ComingTo (closes : String → Int → Bool) (tokens : List String)
    (anchor : Int) (pass : PricePass π) (latest day : Int)
    (rows : List (DailyPrice π)) : Prop where
  complete : AllComplete closes tokens anchor rows
  stored : ∃ row ∈ rows, row.dateUnixSeconds / daySeconds = latest
  dates : ∀ row ∈ rows, row.dateUnixSeconds / daySeconds < day
  settled : ∀ earlier, latest < earlier → earlier < day →
    pass.Settles closes tokens earlier →
    DayComplete closes tokens rows earlier
  through : ∀ before, latest < before → before < day → pass.GoesThrough before

section day

variable {anchor latest day : Int} {rows₀ rows : List (DailyPrice π)}
  {loop : DayLoop π}

/-- A day after which the pass ends, or goes on. -/
theorem ComingTo.written
    (hcome : ComingTo closes tokens anchor pass latest day rows)
    (hlatest : latestDay rows₀ = some latest)
    (hleaves : pass.LeavesNone closes tokens rows₀) (hday : latest < day)
    (hmax : day ≤ latest + tokenPriceDailyBackfillMaxDaysPerRun)
    (htoday : day ≤ pass.today)
    (h : DayFetched pass day pricedSymbols ⟨[], none, false⟩ loop)
    (hwrite : (loop.rows day).isEmpty = true ∨ pass.write day = true) :
    AllComplete closes tokens anchor
      (if (loop.rows day).isEmpty then (rows, 0)
        else upsertTokenDailyPrices (pass.tokens day) rows
          (loop.rows day)).1 := by
  intro earlier hanchor hrow
  by_cases hold : ∃ row ∈ rows, earlier ≤ row.dateUnixSeconds / daySeconds
  · exact dayComplete_written h (hcome.complete earlier hanchor hold)
  · -- the row is of this day, so the pass has all of the days before it
    obtain ⟨row, hrow, hle⟩ := hrow
    rcases (mem_written_iff h).mp ⟨row, hrow, rfl, rfl⟩ with
      ⟨old, hmem, -, hdate⟩ | ⟨hdate, hstores⟩
    · rw [← hdate] at hle
      exact absurd ⟨old, hmem, hle⟩ hold
    · have hearlier : earlier ≤ day := by
        rw [hdate, daySeconds] at hle
        omega
      have hafter : latest < earlier := by
        obtain ⟨old, hmem, hlast⟩ := hcome.stored
        by_contra hnot
        exact hold ⟨old, hmem, by omega⟩
      have hsettles := hleaves latest earlier day row.symbol hlatest hafter
        hearlier ⟨hday, hmax, htoday, hcome.through⟩
        (writes_of_stores h hstores hwrite) hstores
      rcases lt_or_eq_of_le hearlier with hlt | rfl
      · exact dayComplete_written h
          (hcome.settled earlier hafter hlt hsettles)
      · exact dayComplete_settled h hsettles

/-- A day whose symbols are all through. -/
theorem ComingTo.next
    (hcome : ComingTo closes tokens anchor pass latest day rows)
    (hcomplete : AllComplete closes tokens anchor
      (if (loop.rows day).isEmpty then (rows, 0)
        else upsertTokenDailyPrices (pass.tokens day) rows (loop.rows day)).1)
    (h : DayFetched pass day pricedSymbols ⟨[], none, false⟩ loop)
    (hfree : loop.rateLimited = false)
    (hwrite : (loop.rows day).isEmpty = true ∨ pass.write day = true) :
    ComingTo closes tokens anchor pass latest (day + 1)
      (if (loop.rows day).isEmpty then (rows, 0)
        else upsertTokenDailyPrices (pass.tokens day) rows
          (loop.rows day)).1 := by
  refine ⟨hcomplete, ?_, ?_, ?_, ?_⟩
  · obtain ⟨row, hrow, hlast⟩ := hcome.stored
    obtain ⟨row', hrow', -, hdate⟩ :=
      (mem_written_iff h).mpr (.inl ⟨row, hrow, rfl, rfl⟩)
    exact ⟨row', hrow', by rw [hdate]; exact hlast⟩
  · intro row hrow
    rcases (mem_written_iff h).mp ⟨row, hrow, rfl, rfl⟩ with
      ⟨old, hold, -, hdate⟩ | ⟨hdate, -⟩
    · have hlt := hcome.dates old hold
      rw [hdate] at hlt
      omega
    · rw [hdate, daySeconds]
      omega
  · intro earlier hafter hlt hsettles
    by_cases hbefore : earlier < day
    · exact dayComplete_written h
        (hcome.settled earlier hafter hbefore hsettles)
    · obtain rfl : earlier = day := by omega
      exact dayComplete_settled h hsettles
  · intro before hafter hlt
    by_cases hbefore : before < day
    · exact hcome.through before hafter hbefore
    · obtain rfl : before = day := by omega
      intro s hs hserved
      obtain ⟨hlimit, hasked⟩ := h.ended hfree s hs hserved
      refine ⟨hlimit, h.answered s hasked, fun usd husd => ?_⟩
      -- a price is a row to write
      refine hwrite.resolve_left fun hempty => ?_
      obtain ⟨price, hprice, -⟩ := (mem_dayRows_iff h _ _).mpr
        ⟨rfl, .inl ⟨hasked, usd, husd⟩⟩
      rw [List.isEmpty_iff.mp hempty] at hprice
      cases hprice

end day

theorem backfillDays_complete {anchor latest : Int}
    {rows₀ : List (DailyPrice π)} (hlatest : latestDay rows₀ = some latest)
    (hleaves : pass.LeavesNone closes tokens rows₀) (left : Nat) :
    ∀ {day : Int} {daysProcessed rowsInserted : Nat}
      {rows : List (DailyPrice π)}, latest < day →
      day + left ≤ latest + 1 + tokenPriceDailyBackfillMaxDaysPerRun →
      ComingTo closes tokens anchor pass latest day rows →
      AllComplete closes tokens anchor
        (backfillDays pass left day daysProcessed rowsInserted rows).2 := by
  induction left with
  | zero =>
      intro day daysProcessed rowsInserted rows _ _ hcome
      exact hcome.complete
  | succ left ih =>
      intro day daysProcessed rowsInserted rows hday hmax hcome
      rw [backfillDays]
      split
      · exact hcome.complete
      · split
        · exact hcome.complete
        · next hnot _ loop hfetch =>
            have h := fetchDay_fetched hfetch
            dsimp only
            split
            · exact hcome.complete
            · next hfails =>
                have hwrite : (loop.rows day).isEmpty = true ∨
                    pass.write day = true := by
                  simpa [or_iff_not_imp_left] using hfails
                have hcomplete := hcome.written hlatest hleaves hday
                  (by push_cast at hmax; omega) (by omega) h hwrite
                split
                · exact hcomplete
                · next hlimited =>
                    refine ih (by omega) (by push_cast at hmax; omega) ?_
                    exact hcome.next hcomplete h (by simpa using hlimited)
                      hwrite

/-- What every state of a run has. -/
theorem reaches_complete {start rows : List (DailyPrice π)} {anchor : Int}
    (h : Reaches closes tokens start rows)
    (hanchor : latestDay start = some anchor) :
    AllComplete closes tokens anchor rows := by
  induction h with
  | start =>
      rintro earlier hlo ⟨row, hrow, hle⟩
      have hlast := (latestDay_spec hanchor).2 row hrow
      omega
  | @pass rows pass _ hleaves ih =>
      rw [backfillDailyPrices]
      split
      · exact ih
      · next latest hlatest =>
          obtain ⟨hstored, hdates⟩ := latestDay_spec hlatest
          refine backfillDays_complete hlatest hleaves _ (by omega) (by omega)
            ⟨ih, hstored, hdates, ?_, ?_⟩
          · intro earlier hlo hhi
            omega
          · intro before hlo hhi
            omega

/-- In a run whose passes leave nothing behind, every day between the anchor and
the greatest stored day has the rows of all symbols with a close and a token.
The closes and the tokens are those at the end. -/
theorem backfill_never_skips (closes : String → Int → Bool)
    (tokens : List String) (start rows : List (DailyPrice π))
    (h : Reaches closes tokens start rows) :
    NoneSkipped closes tokens start rows := by
  intro anchor latest later earlier hanchor hlatest hle hlt hlo
  obtain ⟨⟨row, hrow, hday⟩, -⟩ := latestDay_spec hlatest
  exact reaches_complete h hanchor earlier hlo ⟨row, hrow, by omega⟩

end

/-! ## Two passes -/

/-- There is a close for everything. -/
def allCloses (_ : String) (_ : Int) : Bool := true

/-- Day 0 is stored, for `SOUL`. -/
def dayZero : List (DailyPrice Nat) := [⟨"SOUL", 0, 1⟩]

/-- A pass on day 2 that is told a price for everything. -/
def plainPass : PricePass Nat :=
  ⟨2, fun _ _ => .price 1, fun _ => ["SOUL", "ETH"], fun _ => true⟩

/-- The same with another answer for one symbol on day 1. -/
def PricePass.answering (symbol : String) (answer : CloseAnswer Nat) :
    PricePass Nat :=
  { plainPass with
    answer := fun day s =>
      if day = 1 ∧ s = symbol then answer else .price 1 }

/-- The same before `ETH` has a token. -/
def soulPass : PricePass Nat :=
  { plainPass with tokens := fun _ => ["SOUL"] }

/-- The table after a pass and a plain one. -/
def twoPasses (first : PricePass Nat) : List (DailyPrice Nat) :=
  (backfillDailyPrices plainPass (backfillDailyPrices first dayZero).2).2

/-- A limit on the first symbol of a day leaves nothing of it behind. -/
theorem backfill_never_skips_of_first :
    latestDay (twoPasses (.answering "SOUL" .rateLimited)) = some 2 ∧
      NoneSkipped allCloses ["SOUL", "ETH"] dayZero
        (twoPasses (.answering "SOUL" .rateLimited)) := by
  refine ⟨by decide +kernel, backfill_never_skips _ _ _ _
    (.pass _ (.pass _ .start ?_) ?_)⟩
  · -- nothing of day 1 is stored, and the pass does not get to day 2
    rintro latest earlier later symbol hlatest hlt hle ⟨_, _, htoday, hthrough⟩
      - ⟨-, hstores⟩
    have hzero : latestDay dayZero = some 0 := by decide +kernel
    rw [hzero] at hlatest
    cases hlatest
    obtain rfl | rfl : later = 1 ∨ later = 2 := by
      have : later ≤ 2 := htoday
      omega
    · have hnone : (PricePass.answering "SOUL" .rateLimited).asked 1
          pricedSymbols = [] := by decide +kernel
      rcases hstores with ⟨hasked, -⟩ | ⟨-, hasked, -⟩ <;>
        rw [hnone] at hasked <;> cases hasked
    · exact absurd rfl (hthrough 1 (by decide) (by decide) "SOUL" (by decide)
        (by decide +kernel)).1
  · rintro latest earlier later symbol - - - - - - s hs htoken -
    refine ⟨htoken, .inl ⟨?_, 1, rfl⟩⟩
    have hasked : plainPass.asked earlier pricedSymbols =
        pricedSymbols.filter fun symbol => (historyId symbol).isSome :=
      List.takeWhile_eq_self_iff.mpr fun _ _ => rfl
    rw [hasked]
    have hall : ∀ s ∈ pricedSymbols, s ∈ ["SOUL", "ETH"] →
        s ∈ pricedSymbols.filter fun symbol => (historyId symbol).isSome := by
      decide +kernel
    exact hall s hs htoken

/-- The price of `SOUL` on day 1 is stored, and `ETH` is never asked for on that
day again: after a limit, after an answer without a price, and where its token
comes later. -/
theorem backfill_skips :
    ¬NoneSkipped allCloses ["SOUL", "ETH"] dayZero
        (twoPasses (.answering "ETH" .rateLimited)) ∧
      ¬NoneSkipped allCloses ["SOUL", "ETH"] dayZero
        (twoPasses (.answering "ETH" .missing)) ∧
      ¬NoneSkipped allCloses ["SOUL", "ETH"] dayZero (twoPasses soulPass) := by
  have hskips : ∀ rows : List (DailyPrice Nat), latestDay rows = some 2 →
      rows.any (fun row => row.symbol == "ETH" &&
        row.dateUnixSeconds == 1 * daySeconds) = false →
      ¬NoneSkipped allCloses ["SOUL", "ETH"] dayZero rows := by
    intro rows hlatest hnone h
    obtain ⟨row, hrow, hsymbol, hdate⟩ := h 0 2 2 1 (by decide +kernel) hlatest
      (by decide) (by decide) (by decide) "ETH" (by decide) (by decide)
      ⟨"ethereum", by decide +kernel, rfl⟩
    have := List.any_eq_false.mp hnone row hrow
    simp [hsymbol, hdate] at this
  exact ⟨hskips _ (by decide +kernel) (by decide +kernel),
    hskips _ (by decide +kernel) (by decide +kernel),
    hskips _ (by decide +kernel) (by decide +kernel)⟩

end Explorer.Ref

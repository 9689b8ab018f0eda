import Mathlib.Data.List.Sort
import Mathlib.Data.List.TakeDrop

/-!
# Keyset pagination

A page is the first rows after a cursor in the order of a key, and the cursor
of the next page is the key of its last row. One row more than the page is
looked up to know whether there is a next page. A walk follows the cursors,
and the rows may have grown from one request to the next.

The theorems are about walks: keys only go up, so nothing comes twice; a row
that is there all along is never passed over, because the cursor stops at a
row of the page; and over fixed rows every page but the last takes at least
one row away from what remains.
-/

namespace Explorer.Lib

variable {ρ κ σ γ ε : Type*}

/-- Requests that follow the cursor each answer returns; `ended` says that the
last answer had none. -/
inductive Walk (request : σ → Option γ → Except ε (List ρ × Option γ)) :
    Option γ → List σ → List (List ρ) → Bool → Prop
  | pause (cursor : Option γ) : Walk request cursor [] [] false
  | last {s : σ} {cursor : Option γ} {page : List ρ} :
      request s cursor = .ok (page, none) →
      Walk request cursor [s] [page] true
  | next {s : σ} {cursor : Option γ} {page : List ρ} {c : γ} {ss : List σ}
      {pages : List (List ρ)} {ended : Bool} :
      request s cursor = .ok (page, some c) →
      Walk request (some c) ss pages ended →
      Walk request cursor (s :: ss) (page :: pages) ended

section

variable [LinearOrder κ] (key : ρ → κ)

/-- The row comes after the cursor. -/
def isAfter (after : Option κ) (r : ρ) : Bool :=
  after.all fun c => decide (c < key r)

/-- The rows after a cursor, in order. -/
def remaining (after : Option κ) (rows : List ρ) : List ρ :=
  (rows.filter (isAfter key after)).insertionSort fun a b => key a ≤ key b

/-- One page of at most `n` rows, and the cursor of the next. -/
def keysetPage (rows : List ρ) (n : Nat) (after : Option κ) :
    List ρ × Option κ :=
  let found := (remaining key after rows).take (n + 1)
  (found.take n,
    if n < found.length then (found.take n).getLast?.map key else none)

variable {key} {after : Option κ} {rows : List ρ} {n : Nat}

theorem mem_remaining {x : ρ} :
    x ∈ remaining key after rows ↔ x ∈ rows ∧ isAfter key after x = true := by
  rw [remaining, (List.perm_insertionSort _ _).mem_iff, List.mem_filter]

theorem remaining_sorted (hkeys : (rows.map key).Nodup) :
    (remaining key after rows).Pairwise fun a b => key a < key b := by
  have hsorted : (remaining key after rows).Pairwise
      fun a b => key a ≤ key b := List.pairwise_insertionSort _ _
  have hnodup : (remaining key after rows).Pairwise
      fun a b => key a ≠ key b := by
    have hperm := List.perm_insertionSort (fun a b => key a ≤ key b)
      (rows.filter (isAfter key after))
    rw [List.Nodup, List.pairwise_map] at hkeys
    exact (hkeys.filter _).perm hperm.symm fun h => h.symm
  exact (hsorted.and hnodup).imp fun h => lt_of_le_of_ne h.1 h.2

theorem keysetPage_rows :
    (keysetPage key rows n after).1 = (remaining key after rows).take n := by
  rw [keysetPage, List.take_take, Nat.min_eq_left (Nat.le_succ n)]

/-- Without a next page this one has everything. -/
theorem keysetPage_none (hn : 0 < n)
    (h : (keysetPage key rows n after).2 = none) :
    (keysetPage key rows n after).1 = remaining key after rows := by
  rw [keysetPage_rows]
  refine List.take_of_length_le ?_
  by_contra hlong
  simp only [keysetPage, List.length_take] at h
  rw [if_pos (by omega), Option.map_eq_none_iff, List.getLast?_eq_none_iff,
    List.take_eq_nil_iff, List.take_eq_nil_iff] at h
  rcases h with h | h | h
  · omega
  · omega
  · rw [h] at hlong
    simp at hlong

/-- A next cursor is the key of the page's last row, and rows are left after
it. -/
theorem keysetPage_some {c : κ}
    (h : (keysetPage key rows n after).2 = some c) :
    ∃ front x rest, (keysetPage key rows n after).1 = front ++ [x] ∧
      remaining key after rows = front ++ x :: rest ∧ rest ≠ [] ∧
      key x = c := by
  simp only [keysetPage] at h
  split at h
  · next hlong =>
      rw [List.length_take] at hlong
      rw [List.take_take, Nat.min_eq_left (Nat.le_succ n)] at h
      obtain ⟨x, hlast, hx⟩ := Option.map_eq_some_iff.mp h
      obtain ⟨front, hfront⟩ := List.getLast?_eq_some_iff.mp hlast
      refine ⟨front, x, (remaining key after rows).drop n, ?_, ?_, ?_, hx⟩
      · rw [keysetPage_rows, hfront]
      · rw [← List.singleton_append, ← List.append_assoc, ← hfront,
          List.take_append_drop]
      · rw [Ne, List.drop_eq_nil_iff]
        omega
  · cases h

theorem isAfter_some {c : κ} {x : ρ} :
    isAfter key (some c) x = true ↔ c < key x :=
  decide_eq_true_iff

/-- What remains after a page is what it has left of the rows before. -/
theorem isAfter_of_isAfter {x y : ρ} (hx : isAfter key after x = true)
    (hy : key x < key y) : isAfter key after y = true := by
  cases after with
  | none => rfl
  | some c => exact isAfter_some.mpr ((isAfter_some.mp hx).trans hy)

end

/-! ## Walks -/

section

variable [LinearOrder κ]

/-- A request that answers pages of `rowsOf`, with its cursors written out by
`encode`. -/
def Serves (key : ρ → κ) (rowsOf : σ → List ρ) (limitOf : σ → Nat)
    (encode : κ → γ) (request : σ → Option γ → Except ε (List ρ × Option γ)) :
    Prop :=
  ∀ s after, request s (after.map encode) =
    .ok ((keysetPage key (rowsOf s) (limitOf s) after).1,
      (keysetPage key (rowsOf s) (limitOf s) after).2.map encode)

variable {key : ρ → κ} {rowsOf : σ → List ρ} {limitOf : σ → Nat}
  {encode : κ → γ} {request : σ → Option γ → Except ε (List ρ × Option γ)}
  {after : Option κ} {ss : List σ} {pages : List (List ρ)} {ended : Bool}

/-- Induction over a walk, with its cursors read back. -/
@[elab_as_elim]
theorem Walk.rec_serves (hserves : Serves key rowsOf limitOf encode request)
    {P : Option κ → List σ → List (List ρ) → Bool → Prop}
    (pause : ∀ after, P after [] [] false)
    (last : ∀ after s,
      (keysetPage key (rowsOf s) (limitOf s) after).2 = none →
      P after [s] [(keysetPage key (rowsOf s) (limitOf s) after).1] true)
    (next : ∀ after s c rest tail ended,
      (keysetPage key (rowsOf s) (limitOf s) after).2 = some c →
      P (some c) rest tail ended →
      P after (s :: rest)
        ((keysetPage key (rowsOf s) (limitOf s) after).1 :: tail) ended)
    (h : Walk request (after.map encode) ss pages ended) :
    P after ss pages ended := by
  generalize hcursor : after.map encode = cursor at h
  induction h generalizing after with
  | pause => exact pause after
  | @last s _ page hreq =>
      subst hcursor
      rw [hserves s after] at hreq
      obtain ⟨rfl, hnone⟩ := Prod.mk.inj (Except.ok.inj hreq)
      exact last after s (Option.map_eq_none_iff.mp hnone)
  | @next s _ page c rest tail ended hreq _ ih =>
      subst hcursor
      rw [hserves s after] at hreq
      obtain ⟨rfl, hsome⟩ := Prod.mk.inj (Except.ok.inj hreq)
      obtain ⟨c', hc', rfl⟩ := Option.map_eq_some_iff.mp hsome
      exact next after s c' rest tail ended hc' (ih rfl)

/-- A row of a page is one of the rows, after the cursor. -/
theorem mem_keysetPage {rows : List ρ} {n : Nat} {x : ρ}
    (h : x ∈ (keysetPage key rows n after).1) :
    x ∈ rows ∧ isAfter key after x = true := by
  rw [keysetPage_rows] at h
  exact mem_remaining.mp (List.mem_of_mem_take h)

/-- The cursor of a page is the key of one of its rows. -/
theorem isAfter_of_next {rows : List ρ} {n : Nat} {c : κ} {x : ρ}
    (hc : (keysetPage key rows n after).2 = some c)
    (hx : isAfter key (some c) x = true) : isAfter key after x = true := by
  obtain ⟨front, y, rest, hpage, -, -, rfl⟩ := keysetPage_some hc
  have hy : y ∈ (keysetPage key rows n after).1 := by
    rw [hpage]
    exact List.mem_append_right _ List.mem_cons_self
  exact isAfter_of_isAfter (mem_keysetPage hy).2 (isAfter_some.mp hx)

theorem keysetPage_sorted {rows : List ρ} {n : Nat}
    (hkeys : (rows.map key).Nodup) :
    (keysetPage key rows n after).1.Pairwise fun a b => key a < key b := by
  rw [keysetPage_rows]
  exact (remaining_sorted hkeys).take

/-- No row of a page is past its cursor. -/
theorem le_of_next {rows : List ρ} {n : Nat} {c : κ} {x : ρ}
    (hkeys : (rows.map key).Nodup)
    (hc : (keysetPage key rows n after).2 = some c)
    (hx : x ∈ (keysetPage key rows n after).1) : key x ≤ c := by
  have hsorted : (keysetPage key rows n after).1.Pairwise
      fun a b => key a < key b := keysetPage_sorted hkeys
  obtain ⟨front, y, rest, hpage, -, -, rfl⟩ := keysetPage_some hc
  rw [hpage] at hx hsorted
  rcases List.mem_append.mp hx with hx | hx
  · exact ((List.pairwise_append.mp hsorted).2.2 x hx y
      List.mem_cons_self).le
  · rw [List.mem_singleton.mp hx]

/-- What a page leaves comes after its cursor. -/
theorem isAfter_next {rows : List ρ} {n : Nat} {c : κ} {x : ρ}
    (hkeys : (rows.map key).Nodup)
    (hc : (keysetPage key rows n after).2 = some c)
    (hx : x ∈ remaining key after rows)
    (hpage : x ∉ (keysetPage key rows n after).1) :
    isAfter key (some c) x = true := by
  have hsorted : (remaining key after rows).Pairwise
      fun a b => key a < key b := remaining_sorted hkeys
  obtain ⟨front, y, rest, hfront, hrem, -, rfl⟩ := keysetPage_some hc
  rw [hrem] at hx hsorted
  rw [hfront] at hpage
  rcases List.mem_append.mp hx with hx | hx
  · exact absurd (List.mem_append_left _ hx) hpage
  · rcases List.mem_cons.mp hx with rfl | hx
    · exact absurd (List.mem_append_right _ List.mem_cons_self) hpage
    · exact isAfter_some.mpr (List.rel_of_pairwise_cons
        (List.pairwise_append.mp hsorted).2.1 hx)

/-- Every row of a walk was there when it was asked for, and comes after the
cursor it started from. -/
theorem Walk.mem (hserves : Serves key rowsOf limitOf encode request)
    (h : Walk request (after.map encode) ss pages ended) :
    ∀ x ∈ pages.flatten,
      (∃ s ∈ ss, x ∈ rowsOf s) ∧ isAfter key after x = true := by
  refine h.rec_serves hserves ?_ ?_ ?_
  · intro after x hx
    cases hx
  · intro after s _ x hx
    rw [List.flatten_singleton] at hx
    obtain ⟨hmem, hafter⟩ := mem_keysetPage hx
    exact ⟨⟨s, List.mem_cons_self, hmem⟩, hafter⟩
  · intro after s c rest tail ended hc ih x hx
    rw [List.flatten_cons] at hx
    rcases List.mem_append.mp hx with hx | hx
    · obtain ⟨hmem, hafter⟩ := mem_keysetPage hx
      exact ⟨⟨s, List.mem_cons_self, hmem⟩, hafter⟩
    · obtain ⟨⟨s', hs', hmem⟩, hafter⟩ := ih x hx
      exact ⟨⟨s', List.mem_cons_of_mem _ hs', hmem⟩,
        isAfter_of_next hc hafter⟩

/-- The rows of a walk come in order, so none comes twice. -/
theorem Walk.sorted (hserves : Serves key rowsOf limitOf encode request)
    (h : Walk request (after.map encode) ss pages ended)
    (hkeys : ∀ s ∈ ss, ((rowsOf s).map key).Nodup) :
    pages.flatten.Pairwise fun a b => key a < key b := by
  suffices hboth : pages.flatten.Pairwise (fun a b => key a < key b) ∧
      ∀ x ∈ pages.flatten, isAfter key after x = true from hboth.1
  revert hkeys
  refine h.rec_serves hserves ?_ ?_ ?_
  · intro after _
    exact ⟨List.Pairwise.nil, fun x hx => absurd hx List.not_mem_nil⟩
  · intro after s _ hkeys
    rw [List.flatten_singleton]
    exact ⟨keysetPage_sorted (hkeys s List.mem_cons_self),
      fun x hx => (mem_keysetPage hx).2⟩
  · intro after s c rest tail ended hc ih hkeys
    obtain ⟨htail, hafter⟩ :=
      ih fun s' hs' => hkeys s' (List.mem_cons_of_mem _ hs')
    have hs := hkeys s List.mem_cons_self
    rw [List.flatten_cons]
    constructor
    · refine List.pairwise_append.mpr ⟨keysetPage_sorted hs, htail, ?_⟩
      intro a ha b hb
      exact (le_of_next hs hc ha).trans_lt (isAfter_some.mp (hafter b hb))
    · intro x hx
      rcases List.mem_append.mp hx with hx | hx
      · exact (mem_keysetPage hx).2
      · exact isAfter_of_next hc (hafter x hx)

/-- A row that is there at every request of a finished walk is in it. -/
theorem Walk.complete (hserves : Serves key rowsOf limitOf encode request)
    (h : Walk request (after.map encode) ss pages ended)
    (hended : ended = true)
    (hkeys : ∀ s ∈ ss, ((rowsOf s).map key).Nodup)
    (hlimits : ∀ s ∈ ss, 0 < limitOf s) {x : ρ}
    (hx : ∀ s ∈ ss, x ∈ rowsOf s) (hafter : isAfter key after x = true) :
    x ∈ pages.flatten := by
  revert hended hkeys hlimits hx hafter
  refine h.rec_serves hserves ?_ ?_ ?_
  · intro after hfalse
    cases hfalse
  · intro after s hnone _ _ hlimits hx hafter
    rw [List.flatten_singleton,
      keysetPage_none (hlimits s List.mem_cons_self) hnone]
    exact mem_remaining.mpr ⟨hx s List.mem_cons_self, hafter⟩
  · intro after s c rest tail ended hc ih hended hkeys hlimits hx hafter
    rw [List.flatten_cons, List.mem_append]
    by_cases hpage : x ∈ (keysetPage key (rowsOf s) (limitOf s) after).1
    · exact .inl hpage
    · -- what the page leaves comes after its cursor
      refine .inr (ih hended ?_ ?_ ?_ ?_)
      · exact fun s' hs' => hkeys s' (List.mem_cons_of_mem _ hs')
      · exact fun s' hs' => hlimits s' (List.mem_cons_of_mem _ hs')
      · exact fun s' hs' => hx s' (List.mem_cons_of_mem _ hs')
      · exact isAfter_next (hkeys s List.mem_cons_self) hc
          (mem_remaining.mpr ⟨hx s List.mem_cons_self, hafter⟩) hpage

/-- No page is longer than its limit. -/
theorem Walk.sizes (hserves : Serves key rowsOf limitOf encode request)
    (h : Walk request (after.map encode) ss pages ended) :
    List.Forall₂ (fun s page => page.length ≤ limitOf s) ss pages := by
  have hsize : ∀ after s,
      (keysetPage key (rowsOf s) (limitOf s) after).1.length ≤ limitOf s := by
    intro after s
    rw [keysetPage_rows]
    exact List.length_take_le _ _
  refine h.rec_serves hserves ?_ ?_ ?_
  · exact fun after => List.Forall₂.nil
  · exact fun after s _ => List.Forall₂.cons (hsize after s) List.Forall₂.nil
  · exact fun after s c rest tail ended _ ih =>
      List.Forall₂.cons (hsize after s) ih

/-- A walk that has a cursor can go on. -/
theorem Walk.extend (hserves : Serves key rowsOf limitOf encode request)
    (h : Walk request (after.map encode) ss pages ended)
    (hended : ended = false) (s : σ) :
    ∃ page ended', Walk request (after.map encode) (ss ++ [s])
      (pages ++ [page]) ended' := by
  revert hended
  refine h.rec_serves hserves ?_ ?_ ?_
  · intro after _
    have hreq := hserves s after
    cases hc : (keysetPage key (rowsOf s) (limitOf s) after).2 with
    | none =>
        rw [hc] at hreq
        exact ⟨_, true, Walk.last hreq⟩
    | some c =>
        rw [hc] at hreq
        exact ⟨_, false, Walk.next hreq (Walk.pause _)⟩
  · intro after s' _ hended
    cases hended
  · intro after s' c rest tail ended hc ih hended
    obtain ⟨page, ended', hwalk⟩ := ih hended
    have hreq := hserves s' after
    rw [hc] at hreq
    exact ⟨page, ended', Walk.next hreq hwalk⟩

/-! Fixed rows. -/

variable {rows : List ρ}

theorem length_remaining_lt {n : Nat} {c : κ}
    (hc : (keysetPage key rows n after).2 = some c) :
    (remaining key (some c) rows).length <
      (remaining key after rows).length := by
  have hlength : ∀ after', (remaining key after' rows).length =
      (rows.filter (isAfter key after')).length :=
    fun after' => (List.perm_insertionSort _ _).length_eq
  have hfilter : rows.filter (isAfter key (some c)) =
      (rows.filter (isAfter key after)).filter (isAfter key (some c)) := by
    rw [List.filter_filter]
    refine List.filter_congr fun x _ => ?_
    cases hx : isAfter key (some c) x with
    | false => rfl
    | true => rw [isAfter_of_next hc hx]; rfl
  rw [hlength, hlength, hfilter, List.length_filter_lt_length_iff_exists]
  obtain ⟨front, y, rest, hpage, -, -, rfl⟩ := keysetPage_some hc
  have hy : y ∈ (keysetPage key rows n after).1 := by
    rw [hpage]
    exact List.mem_append_right _ List.mem_cons_self
  refine ⟨y, List.mem_filter.mpr (mem_keysetPage hy), ?_⟩
  intro hlt
  exact lt_irrefl _ (isAfter_some.mp hlt)

/-- Over fixed rows a walk ends, with more requests than rows at the latest. -/
theorem walk_ends (hserves : Serves key rowsOf limitOf encode request)
    (hrows : ∀ s ∈ ss, rowsOf s = rows)
    (hlen : (remaining key after rows).length < ss.length) :
    ∃ k pages, Walk request (after.map encode) (ss.take k) pages true := by
  induction ss generalizing after with
  | nil => cases hlen
  | cons s rest ih =>
      have hreq := hserves s after
      cases hc : (keysetPage key (rowsOf s) (limitOf s) after).2 with
      | none =>
          rw [hc] at hreq
          exact ⟨1, _, Walk.last hreq⟩
      | some c =>
          rw [hc] at hreq
          have hless : (remaining key (some c) rows).length < rest.length := by
            rw [hrows s List.mem_cons_self] at hc
            have := length_remaining_lt hc
            rw [List.length_cons] at hlen
            omega
          obtain ⟨k, pages, hwalk⟩ :=
            ih (fun s' hs' => hrows s' (List.mem_cons_of_mem _ hs')) hless
          exact ⟨k + 1, _, Walk.next hreq hwalk⟩

/-- A walk that is not at its end has left a row out. -/
theorem Walk.left_over (hserves : Serves key rowsOf limitOf encode request)
    (h : Walk request (after.map encode) ss pages ended)
    (hkeys : (rows.map key).Nodup) (hrows : ∀ s ∈ ss, rowsOf s = rows) :
    (ss = [] → pages = []) ∧
      (ss ≠ [] → ¬ended = true →
        ∃ x ∈ rows, isAfter key after x = true ∧ x ∉ pages.flatten) := by
  revert hrows
  refine h.rec_serves hserves ?_ ?_ ?_
  · intro after _
    exact ⟨fun _ => rfl, fun hne => absurd rfl hne⟩
  · intro after s _ _
    exact ⟨fun hnil => absurd hnil (List.cons_ne_nil _ _),
      fun _ hended => absurd rfl hended⟩
  · intro after s c rest tail ended hc ih hrows
    obtain ⟨hempty, hleft⟩ :=
      ih fun s' hs' => hrows s' (List.mem_cons_of_mem _ hs')
    rw [hrows s List.mem_cons_self] at hc ⊢
    refine ⟨fun hnil => absurd hnil (List.cons_ne_nil _ _),
      fun _ hended => ?_⟩
    have houtside : ∀ x, isAfter key (some c) x = true →
        x ∉ (keysetPage key rows (limitOf s) after).1 := by
      intro x hx hpage
      exact absurd (isAfter_some.mp hx) (le_of_next hkeys hc hpage).not_gt
    rw [List.flatten_cons]
    by_cases hrest : rest = []
    · obtain ⟨front, y, left, hpage, hrem, hne, rfl⟩ := keysetPage_some hc
      obtain ⟨z, hz⟩ := List.exists_mem_of_ne_nil left hne
      have hmem : z ∈ remaining key after rows := by
        rw [hrem]
        exact List.mem_append_right _ (List.mem_cons_of_mem _ hz)
      have hsorted : (remaining key after rows).Pairwise
          fun a b => key a < key b := remaining_sorted hkeys
      rw [hrem] at hsorted
      have hlt := List.rel_of_pairwise_cons
        (List.pairwise_append.mp hsorted).2.1 hz
      obtain ⟨hrow, hafter⟩ := mem_remaining.mp hmem
      refine ⟨z, hrow, hafter, ?_⟩
      rw [hempty hrest, List.flatten_nil, List.append_nil]
      exact houtside z (isAfter_some.mpr hlt)
    · obtain ⟨z, hrow, hafter, hnot⟩ := hleft hrest hended
      refine ⟨z, hrow, isAfter_of_next hc hafter, ?_⟩
      rw [List.mem_append, not_or]
      exact ⟨houtside z hafter, hnot⟩

/-- Over fixed rows the cursor is missing exactly when nothing is left. -/
theorem Walk.ended_iff (hserves : Serves key rowsOf limitOf encode request)
    (h : Walk request (after.map encode) ss pages ended) (hne : ss ≠ [])
    (hkeys : (rows.map key).Nodup) (hrows : ∀ s ∈ ss, rowsOf s = rows)
    (hlimits : ∀ s ∈ ss, 0 < limitOf s) :
    ended = true ↔
      ∀ x ∈ rows, isAfter key after x = true → x ∈ pages.flatten := by
  constructor
  · intro hended x hx hafter
    refine h.complete hserves hended ?_ hlimits ?_ hafter
    · intro s hs
      rw [hrows s hs]
      exact hkeys
    · intro s hs
      rw [hrows s hs]
      exact hx
  · intro hall
    by_contra hended
    obtain ⟨x, hx, hafter, hnot⟩ :=
      (h.left_over hserves hkeys hrows).2 hne hended
    exact hnot (hall x hx hafter)

end

end Explorer.Lib

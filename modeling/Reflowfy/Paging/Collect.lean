import Reflowfy.Paging.Loop
import Reflowfy.Paging.Listing

namespace Paging

variable {σ α κ : Type}

-- A loop that reads page after page and may stop early, once what it has decides what it
-- returns: `cut` of everything there was to read.
theorem returns_cut {step : σ → σ ⊕ List α} {out rest : σ → List α} {I : σ → Prop}
    {stop : List α → Option (List α)}
    {cut : List α → List α} (hstop : ∀ have_read result, stop have_read = some result →
      ∀ more, cut (have_read ++ more) = result)
    (hall : ∀ have_read, stop have_read = none → cut have_read = have_read)
    (hstep : ∀ s, I s →
      (∃ s' page, page ≠ [] ∧ rest s = page ++ rest s' ∧ out s' = out s ++ page ∧ I s' ∧
        step s = (stop (out s')).elim (.inl s') .inr) ∨
      rest s = [] ∧ step s = .inr (out s)) {s : σ} (hs : I s) (hgoes : stop (out s) = none) :
    Returns step s (cut (out s ++ rest s)) := by
  induction hlen : (rest s).length using Nat.strongRecOn generalizing s with
  | _ n ih =>
      rcases hstep s hs with ⟨s', page, hpage, hrest, hout, hs', hnext⟩ | ⟨hrest, hret⟩
      · have hsame : out s ++ rest s = out s' ++ rest s' := by rw [hrest, hout, List.append_assoc]
        have hlt : (rest s').length < n := by
          have hpos := List.length_pos_iff.mpr hpage
          rw [← hlen, hrest, List.length_append]
          omega
        rw [hsame]
        cases hmore : stop (out s') with
        | some result =>
            rw [hmore] at hnext
            rw [hstop _ _ hmore]
            exact returns_of_inr hnext
        | none =>
            rw [hmore] at hnext
            exact returns_of_inl hnext (ih _ hlt hs' hmore rfl)
      · rw [hrest, List.append_nil, hall _ hgoes]
        exact returns_of_inr hret

-- Loops that do the same wherever they come to return the same.
theorem Returns.congr {step step' : σ → σ ⊕ α} {I : σ → Prop} (hsame : ∀ s, I s → step s = step' s)
    (hkeep : ∀ s s', I s → step s = .inl s' → I s') {s : σ} {r : α} (hs : I s)
    (h : Returns step' s r) : Returns step s r := by
  obtain ⟨n, hn⟩ := h
  induction n generalizing s with
  | zero => cases hn
  | succ n ih =>
      simp only [run, ← hsame s hs] at hn
      cases hnext : step s with
      | inl s' =>
          rw [hnext] at hn
          exact returns_of_inl hnext (ih (hkeep s s' hs hnext) hn)
      | inr r' =>
          rw [hnext] at hn
          exact returns_of_inr (hnext.trans (congrArg Sum.inr (Option.some.inj hn)))

namespace Listing

variable [LinearOrder κ] (listing : Listing α κ)

-- What a search with a cursor of its own is left with.
def behind (start : Option κ) : Listing α κ := listing.restrict fun a =>
    start.all (· < listing.sort a)

@[simp] theorem behind_hits (start : Option κ) :
    (listing.behind start).hits = listing.after start := by
  cases start with
  | none => exact List.filter_eq_self.mpr fun a _ => by simp
  | some cursor => simp [behind, restrict, after]

theorem behind_none : listing.behind none = listing := by
  have hhits := listing.behind_hits none
  simp only [behind, restrict, after] at hhits ⊢
  congr 1

theorem lt_of_mem_after {start : Option κ} {a : α} (ha : a ∈ listing.after start) :
    start.all (· < listing.sort a) = true := by
  rw [← behind_hits] at ha
  exact (List.mem_filter.mp ha).2

-- A cursor found behind the start comes in the place of it.
theorem after_behind {start key : Option κ}
    (hkey : ∀ c, key = some c → ∃ a ∈ listing.after start, listing.sort a = c) :
    listing.after (key <|> start) = (listing.behind start).after key := by
  cases key with
  | none => exact (listing.behind_hits start).symm
  | some c =>
      obtain ⟨a, ha, rfl⟩ := hkey c rfl
      have hstart := listing.lt_of_mem_after ha
      simp only [after, behind, restrict, List.filter_filter, Option.orElse_eq_orElse,
        Option.orElse_eq_or, Option.some_or]
      refine List.filter_congr fun b _ => ?_
      by_cases hb : listing.sort a < listing.sort b
      · have hbehind : start.all (· < listing.sort b) = true := by
          rw [Option.all_eq_true] at hstart ⊢
          exact fun s hs => decide_eq_true ((of_decide_eq_true (hstart s hs)).trans hb)
        simp [hb, hbehind]
      · simp [hb]

theorem take_search_length (key : Option κ) (size : ℕ) :
    (listing.after key).take (listing.search key size).length = listing.search key size := by
  rw [search, List.length_take, ← List.take_eq_take_min]

-- Behind the last hit of a page is what the page has left.
theorem after_page {key : Option κ} {size : ℕ} (hpage : listing.search key size ≠ []) :
    listing.after ((listing.search key size).getLast?.map listing.sort) =
      (listing.after key).drop (listing.search key size).length := by
  rw [listing.after_search hpage, search, List.length_take]
  rcases Nat.le_total size (listing.after key).length with hfull | hlast
  · rw [Nat.min_eq_left hfull]
  · rw [Nat.min_eq_right hlast, List.drop_of_length_le hlast, List.drop_length]

theorem after_eq_nil {key : Option κ} {size : ℕ} (hsize : 1 ≤ size)
    (hempty : listing.search key size = []) :
    listing.after key = [] := by
  rw [search, List.take_eq_nil_iff] at hempty
  exact hempty.resolve_left (by omega)

-- A page that is not empty has a last hit, whose sort values replace the cursor.
theorem next_cursor {key start : Option κ} {size : ℕ} (hpage : listing.search key size ≠ []) :
    ((listing.search key size).getLast?.map listing.sort <|> start) =
      (listing.search key size).getLast?.map listing.sort := by
  rw [List.getLast?_eq_some_getLast hpage]
  rfl

theorem search_behind {start key : Option κ} (size : ℕ)
    (hkey : ∀ c, key = some c → ∃ a ∈ listing.after start, listing.sort a = c) :
    listing.search (key <|> start) size = (listing.behind start).search key size := by
  rw [search, search, listing.after_behind hkey]

end Listing

end Paging

import Mathlib.Data.List.Dedup
import Cdm.Planner.Geometry

/-!
# The boundaries of the ring

The tokens that the nodes of a cluster report cut the ring: a node owns the tokens from just after
its predecessor's up to and including its own.  `ringBoundaries` cuts the bounds of a run at the
tokens that lie in them, and names for each range the token that decides its owner.
-/

namespace Cdm

open List TokenRange

/-- `i128::saturating_add(1)`. -/
def I128.saturatingSucc (a : I128) : I128 where
  val := min i128Max (a.val + 1)
  i128Min_le := le_min (by decide) (a.i128Min_le.trans (by omega))
  le_i128Max := min_le_left ..

/-- The ranges that end at the tokens, from `lower` on, and what follows the last of them. -/
def boundaryLoop (lower : I128) : List I128 → List (TokenRange × I128) × I128
  | [] => ([], lower)
  | token :: tokens =>
    let rest := boundaryLoop token.saturatingSucc tokens
    match TokenRange.new lower.val token.val lower.i128Min_le token.le_i128Max with
    | .ok range => ((range, token) :: rest.1, rest.2)
    | .error _ => rest

/-- The tokens in the bounds, once each and in order. -/
def ringTokens (tokens : List I128) (bounds : TokenRange) : List I128 :=
  ((tokens.filter fun token => bounds.contains token.val || token.val = bounds.min).dedup).insertionSort
    fun a b => a.val ≤ b.val

/-- The ring boundaries that the tokens describe, clipped to the bounds, each with the token that
decides its owner. -/
def ringBoundaries (tokens : List I128) (bounds : TokenRange) : List (TokenRange × I128) :=
  match ringTokens tokens bounds with
  | [] => []
  | first :: rest =>
    let (out, lower) := boundaryLoop bounds.lower (first :: rest)
    if lower.val ≤ bounds.max then
      -- what is past the last token belongs to the node of the first one
      match TokenRange.new lower.val bounds.max lower.i128Min_le bounds.le_i128Max with
      | .ok range => out ++ [(range, first)]
      | .error _ => out
    else out

/-! ### Owners -/

/-- The token of the ring that `t` belongs to: the least one at or above it, or the least one of all
when there is none. -/
structure IsSuccessor (tokens : List I128) (owner : I128) (t : ℤ) : Prop where
  mem : owner ∈ tokens
  least : (t ≤ owner.val ∧ ∀ u ∈ tokens, t ≤ u.val → owner.val ≤ u.val) ∨
    ((∀ u ∈ tokens, u.val < t) ∧ ∀ u ∈ tokens, owner.val ≤ u.val)

/-- The ranges tile the bounds, and each is owned by the token that its tokens belong to. -/
structure RingGeometry (tokens : List I128) (bounds : TokenRange)
    (boundaries : List (TokenRange × I128)) : Prop where
  tiles : Tiles bounds.min bounds.max (boundaries.map Prod.fst)
  owner : ∀ piece ∈ boundaries, ∀ t, piece.1.Mem t → IsSuccessor tokens piece.2 t

/-! ### The tokens in the bounds -/

section Tokens

variable {tokens : List I128} {bounds : TokenRange}

theorem I128.ext_val {a b : I128} (h : a.val = b.val) : a = b := by
  cases a
  cases b
  cases h
  rfl

theorem mem_ringTokens {token : I128} :
    token ∈ ringTokens tokens bounds ↔ token ∈ tokens ∧ bounds.Mem token.val := by
  rw [ringTokens, mem_insertionSort, mem_dedup, mem_filter]
  refine and_congr_right fun _ => ?_
  rw [mem_iff, Bool.or_eq_true, contains_iff, decide_eq_true_iff]
  have := bounds.min_le_max
  omega

/-- The tokens of the loop come in order, and none twice. -/
theorem ringTokens_sorted : (ringTokens tokens bounds).Pairwise fun a b => a.val < b.val := by
  have htotal : Std.Total fun a b : I128 => a.val ≤ b.val := ⟨fun a b => le_total a.val b.val⟩
  have htrans : IsTrans I128 fun a b => a.val ≤ b.val := ⟨fun _ _ _ hab hbc => hab.trans hbc⟩
  have hsorted : (ringTokens tokens bounds).Pairwise fun a b => a.val ≤ b.val :=
    pairwise_insertionSort _ _
  have hnodup : (ringTokens tokens bounds).Nodup :=
    (perm_insertionSort _ _).nodup_iff.2 (nodup_dedup _)
  refine (hsorted.and hnodup).imp ?_
  rintro a b ⟨hle, hne⟩
  exact lt_of_le_of_ne hle fun h => hne (I128.ext_val h)

end Tokens

/-! ### The loop -/

section Loop

variable {lower token : I128} {tokens : List I128}

theorem boundaryLoop_cons (h : lower.val ≤ token.val) :
    boundaryLoop lower (token :: tokens) =
      ((⟨lower.val, token.val, h, lower.i128Min_le, token.le_i128Max⟩, token) ::
        (boundaryLoop token.saturatingSucc tokens).1,
        (boundaryLoop token.saturatingSucc tokens).2) := by
  rw [boundaryLoop, TokenRange.new, dif_pos h]

theorem saturatingSucc_of_lt {a : I128} (h : a.val < i128Max) : a.saturatingSucc.val = a.val + 1 :=
  min_eq_right (by omega)

theorem saturatingSucc_of_top {a : I128} (h : a.val = i128Max) : a.saturatingSucc.val = i128Max :=
  min_eq_left (by omega)

/-- What the loop does with tokens in order: its ranges tile what lies between `lower` and the last
token, and each ends at its owner, with no other token in it. -/
theorem boundaryLoop_spec (hsorted : (token :: tokens).Pairwise fun a b => a.val < b.val)
    (hlower : lower.val ≤ token.val) :
    ∃ last ∈ token :: tokens, (∀ u ∈ token :: tokens, u.val ≤ last.val) ∧
      (boundaryLoop lower (token :: tokens)).2 = last.saturatingSucc ∧
      Tiles lower.val last.val ((boundaryLoop lower (token :: tokens)).1.map Prod.fst) ∧
      ∀ piece ∈ (boundaryLoop lower (token :: tokens)).1, piece.2 ∈ token :: tokens ∧
        piece.1.max = piece.2.val ∧
        ∀ u ∈ token :: tokens, piece.1.min ≤ u.val → piece.2.val ≤ u.val := by
  induction tokens generalizing lower token with
  | nil =>
    rw [boundaryLoop_cons hlower]
    refine ⟨token, mem_singleton_self token, by simp, rfl, Tiles.singleton rfl rfl, ?_⟩
    rintro piece hpiece
    obtain rfl := mem_singleton.1 hpiece
    refine ⟨mem_singleton_self token, rfl, ?_⟩
    intro u hu _
    rw [mem_singleton.1 hu]
  | cons next tokens ih =>
    obtain ⟨hfirst, hrest⟩ := pairwise_cons.1 hsorted
    have hlt : token.val < next.val := hfirst next (mem_cons_self ..)
    have hsucc := saturatingSucc_of_lt (hlt.trans_le next.le_i128Max)
    have hnext : token.saturatingSucc.val ≤ next.val := by omega
    obtain ⟨last, hlast, hgreatest, hend, htiles, howner⟩ := ih hrest hnext
    rw [boundaryLoop_cons hlower]
    refine ⟨last, mem_cons_of_mem _ hlast, ?_, hend, ?_, ?_⟩
    · intro u hu
      rcases mem_cons.1 hu with rfl | hu
      · exact (hfirst last hlast).le
      · exact hgreatest u hu
    · rw [hsucc] at htiles
      exact Tiles.cons rfl htiles
    · intro piece hpiece
      rcases mem_cons.1 hpiece with rfl | hpiece
      · refine ⟨mem_cons_self .., rfl, ?_⟩
        intro u hu _
        rcases mem_cons.1 hu with rfl | hu
        · exact le_rfl
        · exact (hfirst u hu).le
      · obtain ⟨hmem, hmax, hleast⟩ := howner piece hpiece
        refine ⟨mem_cons_of_mem _ hmem, hmax, ?_⟩
        intro u hu hmin
        rcases mem_cons.1 hu with rfl | hu
        · -- the ranges of the rest start after the first token
          have := (htiles.bounds piece.1 (mem_map_of_mem hpiece)).1
          omega
        · exact hleast u hu hmin

end Loop

/-! ### The geometry of the ring -/

section Geometry

variable {tokens : List I128} {bounds : TokenRange}

/-- The last token in the bounds, and what the loop makes of all of them. -/
structure Looped (tokens : List I128) (bounds : TokenRange) (first : I128) (rest : List I128)
    (last : I128) : Prop where
  mem : last ∈ tokens
  inside : bounds.Mem last.val
  between : ∀ u ∈ tokens, bounds.Mem u.val → first.val ≤ u.val ∧ u.val ≤ last.val
  next : (boundaryLoop bounds.lower (first :: rest)).2 = last.saturatingSucc
  tiles : Tiles bounds.min last.val ((boundaryLoop bounds.lower (first :: rest)).1.map Prod.fst)
  owner : ∀ piece ∈ (boundaryLoop bounds.lower (first :: rest)).1, ∀ t, piece.1.Mem t →
    IsSuccessor tokens piece.2 t

theorem exists_looped {first : I128} {rest : List I128}
    (h : ringTokens tokens bounds = first :: rest) : ∃ last, Looped tokens bounds first rest last := by
  have hmem {u : I128} : u ∈ first :: rest ↔ u ∈ tokens ∧ bounds.Mem u.val := by
    rw [← h, mem_ringTokens]
  have hsorted : (first :: rest).Pairwise fun a b => a.val < b.val := h ▸ ringTokens_sorted
  have hlower : bounds.lower.val ≤ first.val :=
    (mem_iff.1 (hmem.1 (mem_cons_self ..)).2).1
  obtain ⟨last, hlast, hgreatest, hend, htiles, howner⟩ := boundaryLoop_spec hsorted hlower
  refine ⟨last, (hmem.1 hlast).1, (hmem.1 hlast).2, ?_, hend, htiles, ?_⟩
  · intro u hu hbounds
    have hin := hmem.2 ⟨hu, hbounds⟩
    refine ⟨?_, hgreatest u hin⟩
    rcases mem_cons.1 hin with rfl | hin
    · exact le_rfl
    · exact ((pairwise_cons.1 hsorted).1 u hin).le
  · intro piece hpiece t ht
    obtain ⟨hpieceMem, hmax, hleast⟩ := howner piece hpiece
    obtain ⟨htmin, htmax⟩ := mem_iff.1 ht
    have hinside : bounds.min ≤ piece.1.min :=
      (htiles.bounds piece.1 (mem_map_of_mem hpiece)).1
    have hbounds := mem_iff.1 (hmem.1 hpieceMem).2
    refine ⟨(hmem.1 hpieceMem).1, .inl ⟨hmax ▸ htmax, ?_⟩⟩
    intro u hu htu
    by_cases hubounds : bounds.Mem u.val
    · exact hleast u (hmem.2 ⟨hu, hubounds⟩) (htmin.trans htu)
    · -- a token outside the bounds that is not below them is above all of their tokens
      rw [mem_iff] at hubounds
      omega

/-- The tokens in the bounds are all that decides the ranges and their owners: one of them is the last
token of the bounds, or there are no others. -/
def Decisive (tokens : List I128) (bounds : TokenRange) : Prop :=
  (∃ token ∈ tokens, bounds.Mem token.val) ∧
    (bounds.upper ∈ tokens ∧ bounds.max < i128Max ∨
      bounds.upper ∉ tokens ∧ ∀ token ∈ tokens, bounds.Mem token.val)

section Cases

variable {first last : I128} {rest : List I128}

/-- The last token is the last of the bounds. -/
theorem ringBoundaries_of_lt (h : ringTokens tokens bounds = first :: rest)
    (hlt : bounds.max < (boundaryLoop bounds.lower (first :: rest)).2.val) :
    ringBoundaries tokens bounds = (boundaryLoop bounds.lower (first :: rest)).1 := by
  rw [ringBoundaries, h]
  exact if_neg (not_le.2 hlt)

/-- Something is left past the last token. -/
theorem ringBoundaries_of_le (h : ringTokens tokens bounds = first :: rest)
    (hle : (boundaryLoop bounds.lower (first :: rest)).2.val ≤ bounds.max) :
    ringBoundaries tokens bounds = (boundaryLoop bounds.lower (first :: rest)).1 ++
      [(⟨_, bounds.max, hle, (boundaryLoop bounds.lower (first :: rest)).2.i128Min_le,
        bounds.le_i128Max⟩, first)] := by
  rw [ringBoundaries, h]
  simp only [if_pos hle, TokenRange.new, dif_pos hle]

/-- Nothing is left past a token that is the last of the bounds. -/
theorem ringGeometry_of_last (h : ringTokens tokens bounds = first :: rest)
    (hloop : Looped tokens bounds first rest last) (hlast : last.val = bounds.max)
    (hceiling : bounds.max < i128Max) :
    RingGeometry tokens bounds (ringBoundaries tokens bounds) := by
  have hsucc := saturatingSucc_of_lt (hlast ▸ hceiling)
  rw [ringBoundaries_of_lt h (by rw [hloop.next]; omega)]
  exact ⟨hlast ▸ hloop.tiles, hloop.owner⟩

/-- The last token of the type saturates, and comes a second time. -/
theorem not_ringGeometry_of_top (h : ringTokens tokens bounds = first :: rest)
    (hloop : Looped tokens bounds first rest last) (hlast : last.val = bounds.max)
    (hmax : bounds.max = i128Max) :
    ¬RingGeometry tokens bounds (ringBoundaries tokens bounds) := by
  have hsucc := saturatingSucc_of_top (hlast.trans hmax)
  rw [ringBoundaries_of_le h (by rw [hloop.next]; omega)]
  intro hgeometry
  have hascending := hgeometry.tiles.ascending
  rw [map_append, pairwise_append] at hascending
  obtain ⟨r, hr, hrlast⟩ := hloop.tiles.covers (mem_iff.1 hloop.inside).1 le_rfl
  have hlt : r.max < (boundaryLoop bounds.lower (first :: rest)).2.val :=
    hascending.2.2 r hr _ (mem_singleton_self _)
  rw [hloop.next] at hlt
  have := (hloop.tiles.bounds r hr).2
  have := (mem_iff.1 hrlast).2
  omega

/-- The range past the last token is given to the first one, which owns it unless the ring has tokens
outside the bounds. -/
theorem ringGeometry_iff_of_lt (h : ringTokens tokens bounds = first :: rest)
    (hloop : Looped tokens bounds first rest last) (hlt : last.val < bounds.max) :
    RingGeometry tokens bounds (ringBoundaries tokens bounds) ↔
      ∀ token ∈ tokens, bounds.Mem token.val := by
  have hfirst : first ∈ tokens ∧ bounds.Mem first.val := by
    rw [← mem_ringTokens, h]
    exact mem_cons_self ..
  have hsucc := saturatingSucc_of_lt (hlt.trans_le bounds.le_i128Max)
  have hnext : (boundaryLoop bounds.lower (first :: rest)).2.val = last.val + 1 := by
    rw [hloop.next, hsucc]
  have hle : (boundaryLoop bounds.lower (first :: rest)).2.val ≤ bounds.max := by omega
  rw [ringBoundaries_of_le h hle]
  constructor
  · intro hgeometry u hu
    -- no token lies above the range past the last token, and the first one is the least
    have hwrap : IsSuccessor tokens first bounds.max :=
      hgeometry.owner _ (mem_append_right _ (mem_singleton_self _)) bounds.max
        (mem_iff.2 ⟨hle, le_rfl⟩)
    have hfirstLast := (hloop.between first hfirst.1 hfirst.2).2
    have hfirstMin := (mem_iff.1 hfirst.2).1
    rcases hwrap.least with ⟨habove, -⟩ | ⟨hbelow, hleast⟩
    · omega
    · exact mem_iff.2 ⟨hfirstMin.trans (hleast u hu), (hbelow u hu).le⟩
  · intro hall
    constructor
    · rw [map_append]
      exact hloop.tiles.concat (r := ⟨_, bounds.max, hle,
        (boundaryLoop bounds.lower (first :: rest)).2.i128Min_le, bounds.le_i128Max⟩) hnext
    · intro piece hpiece t ht
      rcases mem_append.1 hpiece with hpiece | hpiece
      · exact hloop.owner piece hpiece t ht
      · obtain rfl := mem_singleton.1 hpiece
        have htmin : last.val + 1 ≤ t := hnext ▸ (mem_iff.1 ht).1
        refine ⟨hfirst.1, .inr ⟨?_, ?_⟩⟩
        · intro u hu
          have := (hloop.between u hu (hall u hu)).2
          omega
        · intro u hu
          exact (hloop.between u hu (hall u hu)).1

end Cases

/-- **When the ring geometry is right.** The boundaries tile the bounds, and each range is owned by
the successor of its tokens, exactly when some token lies in the bounds and either the last token of
the bounds is one of the ring's, and not the last of the type, or it is not and no token lies outside
the bounds. -/
theorem ringGeometry_iff (tokens : List I128) (bounds : TokenRange) :
    RingGeometry tokens bounds (ringBoundaries tokens bounds) ↔ Decisive tokens bounds := by
  cases hsorted : ringTokens tokens bounds with
  | nil =>
    -- no token lies in the bounds
    have hempty : ringBoundaries tokens bounds = [] := by rw [ringBoundaries, hsorted]
    rw [hempty]
    refine iff_of_false (fun h => h.tiles.ne_nil rfl) ?_
    rintro ⟨⟨u, hu, hbounds⟩, -⟩
    have hmem := mem_ringTokens.2 ⟨hu, hbounds⟩
    rw [hsorted] at hmem
    cases hmem
  | cons first rest =>
    obtain ⟨last, hloop⟩ := exists_looped hsorted
    have hlastMax := (mem_iff.1 hloop.inside).2
    have hinside : ∃ token ∈ tokens, bounds.Mem token.val := ⟨last, hloop.mem, hloop.inside⟩
    have hupper : bounds.upper ∈ tokens ↔ last.val = bounds.max := by
      constructor
      · intro hmem
        have hle := (hloop.between _ hmem (mem_iff.2 ⟨bounds.min_le_max, le_rfl⟩)).2
        exact le_antisymm hlastMax hle
      · intro heq
        have : bounds.upper = last := I128.ext_val heq.symm
        rw [this]
        exact hloop.mem
    rw [Decisive, and_iff_right hinside]
    rcases hlastMax.lt_or_eq with hlt | hlast
    · have hnot : bounds.upper ∉ tokens := fun hmem => hlt.ne (hupper.1 hmem)
      rw [ringGeometry_iff_of_lt hsorted hloop hlt]
      simp [hnot]
    · by_cases hceiling : bounds.max < i128Max
      · exact iff_of_true (ringGeometry_of_last hsorted hloop hlast hceiling)
          (.inl ⟨hupper.2 hlast, hceiling⟩)
      · refine iff_of_false (not_ringGeometry_of_top hsorted hloop hlast
          (le_antisymm bounds.le_i128Max (not_lt.1 hceiling))) ?_
        rintro (⟨-, hlt⟩ | ⟨hnot, -⟩)
        · exact hceiling hlt
        · exact hnot (hupper.2 hlast)

end Geometry

/-! ### Three tokens -/

namespace RingTokenSample

def bounds : TokenRange := .checked 0 100 (.refl true)

/-- The one token in the bounds. -/
def inside : I128 := ⟨40, by decide, by decide⟩

/-- The token above them. -/
def above : I128 := ⟨8000, by decide, by decide⟩

/-- One of three tokens lies in the bounds. -/
def tokens : List I128 := [⟨-5000, by decide, by decide⟩, inside, above]

example : (ringBoundaries tokens bounds).map (fun piece => (piece.1.ends, piece.2.val)) =
    [((0, 40), 40), ((41, 100), 40)] := by decide

/-- The tokens behind the one in the bounds belong to the node of the token 8000, and not to that of
the token 40. -/
theorem not_ringGeometry : ¬RingGeometry tokens bounds (ringBoundaries tokens bounds) := by
  intro h
  have hpiece : ((⟨41, 100, by decide, by decide, by decide⟩ : TokenRange), inside) ∈
      ringBoundaries tokens bounds := by decide
  have howner := h.owner _ hpiece 41 (mem_iff.2 (by decide))
  rcases howner.least with ⟨h₁, -⟩ | ⟨h₁, -⟩
  · revert h₁
    decide
  · have := h₁ above (by decide)
    revert this
    decide

end RingTokenSample

end Cdm

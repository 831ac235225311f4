import Alpine.Protocol.QueryReaders
import Alpine.Protocol.ResourceDescSet

/-!
# The pages of a resource list

`Paged` is what the successive pages of a set must be: they follow each other through the list, and
once a call fails they are all of it. The loop that fills a page ends well only at a description
that does not fit any more, so the page that would have the last description never comes, and the
pages of a set are right exactly where there is nothing to get (`paged_iff_empty`).
-/

namespace Alpine

open Lib

variable {π δ : Type} [QueryOptionData δ]

/-- A call: the position before and after it, the page if it succeeds, and the index read last. -/
structure PageCall (δ : Type) where
  before : Nat
  after : Nat
  page : Option (List (ResourceDesc δ))
  lastRead : Option Nat

def pageSize (page : List (ResourceDesc δ)) : Nat := (page.map ResourceDesc.dataSize).sum

/-- The descriptions that the calls gave. -/
def paged (calls : List (PageCall δ)) : List (ResourceDesc δ) :=
  calls.flatMap fun call => call.page.getD []

/-- What the calls from the start of `list` must be, with the position after them. -/
structure Paged (list : List (ResourceDesc δ)) (calls : List (PageCall δ)) (position : Nat) :
    Prop where
  inOrder : paged calls = list.take position
  whole : (∃ call ∈ calls, call.page = none) → paged calls = list
  sized : ∀ call ∈ calls, ∀ page, call.page = some page →
    pageSize page ≤ maxResourceListSize ∨ page.length = 1
  inside : ∀ call ∈ calls, ∀ i, call.lastRead = some i → i < list.length
  advances : ∀ call ∈ calls, call.page ≠ none → call.before < call.after
  unmoved : ∀ call ∈ calls, call.page = none → call.after = call.before

namespace ResourceDescSet

def pageStep (set : ResourceDescSet δ) (queryPacket : QueryPacket π δ) :
    ResourceDescSet δ × List (PageCall δ) :=
  let (status, next, answer) := set.getResourceDataPacket queryPacket
  (next, [⟨set.currOffset, next.currOffset, if status then answer.resourceList else none,
    set.lastRead⟩])

def pages : Machine (ResourceDescSet δ) (QueryPacket π δ) (PageCall δ) := ⟨pageStep⟩

/-- Every sequence of calls from the start pages the list. -/
def PagesRight (π : Type) (set : ResourceDescSet δ) (list : List (ResourceDesc δ)) : Prop :=
  ∀ packets : List (QueryPacket π δ), Paged list (pages.run set.rewound packets).2
    (pages.run set.rewound packets).1.currOffset

/-- A set that holds a list, wherever its position is. -/
structure Stores (set : ResourceDescSet δ) (list : List (ResourceDesc δ)) : Prop where
  array : ∃ room, set.resourceList = list.map some ++ List.replicate room none
  numResources : set.numResources = list.length

variable {set : ResourceDescSet δ} {list : List (ResourceDesc δ)}

/-- The loop ends for want of room only at a description. -/
theorem pack_noRoom {slots : List (Option (ResourceDesc δ))} {bytesRemaining : Nat}
    (h : (pack slots bytesRemaining).1 = .noRoom) :
    ∃ desc, slots[(pack slots bytesRemaining).2.length]? = some (some desc) := by
  induction slots generalizing bytesRemaining with
  | nil => cases h
  | cons slot slots ih =>
    cases slot with
    | none => cases h
    | some currDesc =>
      unfold pack at h ⊢
      split at h
      · cases h
      · next hshort =>
        rw [if_neg hshort]
        split at h
        · next hfull =>
          rw [if_pos hfull]
          exact ⟨currDesc, rfl⟩
        · next hfits =>
          rw [if_neg hfits]
          obtain ⟨desc, hdesc⟩ := ih h
          exact ⟨desc, hdesc⟩

/-- A page that was filled ends before the last description. -/
theorem Stores.lt_of_page (h : set.Stores list) {queryPacket : QueryPacket π δ}
    (hstatus : (set.getResourceDataPacket queryPacket).1 = true) :
    (set.getResourceDataPacket queryPacket).2.1.currOffset < list.length := by
  obtain ⟨room, harray⟩ := h.array
  unfold getResourceDataPacket at hstatus ⊢
  split at hstatus
  · cases hstatus
  · next hsome =>
    split at hstatus
    · cases hstatus
    · next hleft =>
      rw [if_neg hsome, if_neg hleft]
      dsimp only at hstatus ⊢
      cases hend : (pack (set.resourceList.drop set.currOffset) maxResourceListSize).1 with
      | noRoom =>
        obtain ⟨desc, hdesc⟩ := pack_noRoom hend
        dsimp only
        generalize (pack (set.resourceList.drop set.currOffset) maxResourceListSize).2.length = n
          at hdesc
        rw [List.getElem?_drop, harray] at hdesc
        by_contra hge
        rw [List.getElem?_append_right (by rw [List.length_map]; omega),
          List.getElem?_replicate] at hdesc
        split at hdesc <;> cases hdesc
      | _ =>
        rw [hend] at hstatus
        cases hstatus

/-- What is taken up to a description without room fits, and is what stands there. -/
theorem pack_taken (slots : List (Option (ResourceDesc δ))) (bytesRemaining : Nat) :
    pageSize (pack slots bytesRemaining).2 ≤ bytesRemaining ∧
      slots.take (pack slots bytesRemaining).2.length = (pack slots bytesRemaining).2.map some := by
  induction slots generalizing bytesRemaining with
  | nil => exact ⟨Nat.zero_le _, rfl⟩
  | cons slot slots ih =>
    cases slot with
    | none => exact ⟨Nat.zero_le _, rfl⟩
    | some currDesc =>
      unfold pack
      split
      · exact ⟨Nat.zero_le _, rfl⟩
      · split
        · exact ⟨Nat.zero_le _, rfl⟩
        · next hfits =>
          obtain ⟨hsize, htake⟩ := ih (bytesRemaining - currDesc.dataSize)
          unfold pageSize at hsize ⊢
          constructor
          · rw [List.map_cons, List.sum_cons]
            omega
          · rw [List.length_cons, List.take_succ_cons, htake, List.map_cons]

/-- With all the room of a packet, the first description that is not too long is taken. -/
theorem pack_ne_nil {slots : List (Option (ResourceDesc δ))}
    (h : (pack slots maxResourceListSize).1 = .noRoom) :
    0 < (pack slots maxResourceListSize).2.length := by
  cases slots with
  | nil => cases h
  | cons slot slots =>
    cases slot with
    | none => cases h
    | some currDesc =>
      unfold pack at h ⊢
      split at h
      · cases h
      · next hshort =>
        rw [if_neg hshort, if_neg hshort]
        exact Nat.zero_lt_succ _

/-! ## One call -/

/-- The page of a call that succeeds. -/
theorem Stores.page_of_success (h : set.Stores list) {queryPacket : QueryPacket π δ}
    (hstatus : (set.getResourceDataPacket queryPacket).1 = true) :
    ∃ page, (set.pageStep queryPacket).2 = [⟨set.currOffset, set.currOffset + page.length,
        some page, some (set.currOffset + page.length)⟩] ∧
      (set.pageStep queryPacket).1 = { set with currOffset := set.currOffset + page.length } ∧
      (set.pageStep queryPacket).1.Stores list ∧ 0 < page.length ∧
      pageSize page ≤ maxResourceListSize ∧ set.currOffset + page.length < list.length ∧
      page = (list.drop set.currOffset).take page.length := by
  obtain ⟨room, harray⟩ := h.array
  have hlt := h.lt_of_page hstatus
  unfold pageStep lastRead
  unfold getResourceDataPacket at hstatus hlt ⊢
  split at hstatus
  · cases hstatus
  · next hsome =>
    split at hstatus
    · cases hstatus
    · next hleft =>
      rw [if_neg hsome, if_neg hleft] at hlt
      rw [if_neg hsome, if_neg hleft, if_neg (not_or.mpr ⟨hsome, hleft⟩)]
      dsimp only at hstatus hlt ⊢
      obtain ⟨hsize, htake⟩ :=
        pack_taken (set.resourceList.drop set.currOffset) maxResourceListSize
      cases hend : (pack (set.resourceList.drop set.currOffset) maxResourceListSize).1 with
      | noRoom =>
        have hpos := pack_ne_nil hend
        rw [hend] at hlt
        refine ⟨_, rfl, rfl, ⟨h.array, h.numResources⟩, hpos, hsize, hlt, ?_⟩
        dsimp only at hlt
        have hstored : (set.resourceList.drop set.currOffset).take
            (pack (set.resourceList.drop set.currOffset) maxResourceListSize).2.length =
              ((list.drop set.currOffset).take
                (pack (set.resourceList.drop set.currOffset) maxResourceListSize).2.length).map
                some := by
          generalize (pack (set.resourceList.drop set.currOffset)
            maxResourceListSize).2.length = n at hlt
          rw [harray, List.drop_append_of_le_length (by rw [List.length_map]; omega),
            List.take_append_of_le_length (by
              rw [List.length_drop, List.length_map]
              omega), ← List.map_drop, ← List.map_take]
        rw [hstored] at htake
        exact (List.map_injective_iff.mpr (Option.some_injective _) htake).symm
      | _ =>
        rw [hend] at hstatus
        cases hstatus

/-- A call that fails gives no page. -/
theorem page_of_failure {queryPacket : QueryPacket π δ}
    (hstatus : (set.getResourceDataPacket queryPacket).1 = false) :
    ∃ after lastRead, (set.pageStep queryPacket).2 =
      [⟨set.currOffset, after, none, lastRead⟩] := by
  unfold pageStep
  dsimp only
  rw [hstatus]
  exact ⟨_, _, rfl⟩

/-! ## Sequences of calls -/

omit [QueryOptionData δ] in
theorem paged_append (calls calls' : List (PageCall δ)) :
    paged (calls ++ calls') = paged calls ++ paged calls' :=
  List.flatMap_append

/-- As long as the calls succeed, their pages follow each other through the list. -/
structure Succeeds (list : List (ResourceDesc δ)) (calls : List (PageCall δ))
    (set : ResourceDescSet δ) : Prop where
  stores : set.Stores list
  some : ∀ call ∈ calls, call.page ≠ none
  paged : Paged list calls set.currOffset

theorem Succeeds.step {calls : List (PageCall δ)} (h : Succeeds list calls set)
    {queryPacket : QueryPacket π δ}
    (hstatus : (set.getResourceDataPacket queryPacket).1 = true) :
    Succeeds list (calls ++ (set.pageStep queryPacket).2) (set.pageStep queryPacket).1 ∧
      set.currOffset < (set.pageStep queryPacket).1.currOffset ∧
      (set.pageStep queryPacket).1.currOffset < list.length := by
  obtain ⟨page, hcall, hset, hstores, hpos, hsize, hlt, hpage⟩ := h.stores.page_of_success hstatus
  rw [hset] at hstores ⊢
  rw [hcall]
  have hlast : ∀ {P : PageCall δ → Prop}, (∀ call ∈ calls, P call) →
      P ⟨set.currOffset, set.currOffset + page.length, .some page,
        .some (set.currOffset + page.length)⟩ →
      ∀ call ∈ calls ++ [⟨set.currOffset, set.currOffset + page.length, .some page,
        .some (set.currOffset + page.length)⟩], P call := by
    intro P hcalls hnew call hmem
    rcases List.mem_append.mp hmem with hmem | hmem
    · exact hcalls call hmem
    · cases List.mem_singleton.mp hmem
      exact hnew
  have hsome := hlast h.some (Option.some_ne_none page)
  refine ⟨⟨hstores, hsome, ?_⟩, by dsimp only; omega, hlt⟩
  constructor
  · rw [paged_append, h.paged.inOrder]
    show list.take set.currOffset ++ (page ++ []) = _
    rw [List.append_nil, List.take_add, ← hpage]
  · rintro ⟨call, hmem, hnone⟩
    exact absurd hnone (hsome call hmem)
  · refine hlast h.paged.sized fun page' heq => ?_
    cases heq
    exact .inl hsize
  · refine hlast h.paged.inside fun i heq => ?_
    cases heq
    exact hlt
  · exact hlast h.paged.advances fun _ => by dsimp only; omega
  · exact hlast h.paged.unmoved fun heq => by cases heq

theorem step_pages (set : ResourceDescSet δ) (queryPacket : QueryPacket π δ) :
    pages.step set queryPacket = set.pageStep queryPacket := rfl

theorem Stores.succeeds_rewound (h : set.Stores list) : Succeeds list [] set.rewound := by
  refine ⟨⟨h.array, h.numResources⟩, by simp, ?_⟩
  constructor <;> simp [Alpine.paged, rewound]

/-- If every sequence of calls pages the list, none of them fails. -/
theorem PagesRight.succeeds (hr : set.PagesRight π list) (hs : set.Stores list) (hne : list ≠ [])
    (queryPacket : QueryPacket π δ) (k : Nat) :
    Succeeds list (pages.run set.rewound (List.replicate k queryPacket)).2
        (pages.run set.rewound (List.replicate k queryPacket)).1 ∧
      k ≤ (pages.run set.rewound (List.replicate k queryPacket)).1.currOffset ∧
      (pages.run set.rewound (List.replicate k queryPacket)).1.currOffset < list.length := by
  induction k with
  | zero => exact ⟨hs.succeeds_rewound, le_refl 0, List.length_pos_iff.mpr hne⟩
  | succ k ih =>
    obtain ⟨hsucceeds, hk, hlt⟩ := ih
    have hnext := hr (List.replicate (k + 1) queryPacket)
    rw [List.replicate_succ', Machine.run_append] at hnext ⊢
    generalize pages.run set.rewound (List.replicate k queryPacket) = r at *
    dsimp only [Machine.run_cons, Machine.run_nil] at hnext ⊢
    rw [List.append_nil] at hnext ⊢
    cases hstatus : (r.1.getResourceDataPacket queryPacket).1 with
    | true =>
      obtain ⟨hstep, hmove, hinside⟩ := hsucceeds.step hstatus
      exact ⟨hstep, Nat.succ_le_of_lt (Nat.lt_of_le_of_lt hk hmove), hinside⟩
    | false =>
      -- the pages before the failure are not all of the list
      obtain ⟨after, last, hcall⟩ := page_of_failure hstatus
      have hwhole := hnext.whole ⟨_, List.mem_append_right _ (by
        show _ ∈ (r.1.pageStep queryPacket).2
        rw [hcall]
        exact List.mem_singleton_self _), rfl⟩
      change Alpine.paged (r.2 ++ (r.1.pageStep queryPacket).2) = list at hwhole
      rw [hcall, paged_append, hsucceeds.paged.inOrder] at hwhole
      have hlen := congrArg List.length hwhole
      rw [List.length_append, List.length_take] at hlen
      change min _ _ + 0 = _ at hlen
      omega

/-- With nothing in the set every call fails and reads nothing. -/
theorem Stores.run_of_nil (h : set.Stores []) (packets : List (QueryPacket π δ)) :
    (pages.run set packets).1 = set ∧
      ∀ call ∈ (pages.run set packets).2, call = ⟨set.currOffset, set.currOffset, none, none⟩ := by
  have hnum : set.numResources = 0 := h.numResources
  induction packets with
  | nil => exact ⟨rfl, by simp⟩
  | cons packet packets ih =>
    have hcall : set.pageStep packet = (set, [⟨set.currOffset, set.currOffset, none, none⟩]) := by
      unfold pageStep getResourceDataPacket lastRead
      rw [if_pos hnum, if_pos (.inl hnum)]
      rfl
    rw [Machine.run_cons, step_pages, hcall]
    refine ⟨ih.1, fun call hmem => ?_⟩
    rcases List.mem_append.mp hmem with hmem | hmem
    · exact List.mem_singleton.mp hmem
    · exact ih.2 call hmem

theorem pagesRight_iff_nil (hs : set.Stores list) : set.PagesRight π list ↔ list = [] := by
  constructor
  · intro hr
    by_contra hne
    obtain ⟨-, hk, hlt⟩ := hr.succeeds hs hne (.fresh .queryReply) list.length
    omega
  · rintro rfl packets
    have hrewound : set.rewound.Stores [] := ⟨hs.array, hs.numResources⟩
    obtain ⟨hset, hcalls⟩ := hrewound.run_of_nil packets
    have hnil : Alpine.paged (pages.run set.rewound packets).2 = [] := by
      refine List.flatMap_eq_nil_iff.mpr fun call hmem => ?_
      rw [hcalls call hmem]
      rfl
    constructor
    · rw [hnil, List.take_nil]
    · exact fun _ => hnil
    · intro call hmem page hpage
      rw [hcalls call hmem] at hpage
      cases hpage
    · intro call hmem i hi
      rw [hcalls call hmem] at hi
      cases hi
    · intro call hmem hpage
      rw [hcalls call hmem] at hpage
      exact absurd rfl hpage
    · intro call hmem _
      rw [hcalls call hmem]

/-- The pages of what the calls put are right for the empty list only. -/
theorem paged_iff_empty (calls : List (AddCall π δ)) :
    (filled calls).PagesRight π (added calls) ↔ added calls = [] :=
  have h := holds_filled calls
  pagesRight_iff_nil ⟨h.array, h.numResources⟩

/-- A set with one description. -/
def oneResource : List (AddCall Empty Empty) := [.addResource ⟨1, 0, [], .empty, none⟩]

theorem oneResource_not_paged :
    ¬ ∀ calls : List (AddCall Empty Empty), (filled calls).PagesRight Empty (added calls) := by
  intro h
  have hone := (h oneResource [.fresh .queryReply]).whole
  have hfails : ((filled oneResource).rewound.getResourceDataPacket
      (.fresh .queryReply : QueryPacket Empty Empty)).1 = false := by
    decide +kernel
  generalize (filled oneResource).rewound = set at hone hfails
  obtain ⟨after, last, hcall⟩ := page_of_failure hfails
  rw [Machine.run_cons, Machine.run_nil, List.append_nil, step_pages, hcall] at hone
  have hlist : [] = added oneResource := hone ⟨_, List.mem_singleton_self _, rfl⟩
  exact absurd hlist (List.cons_ne_nil _ _).symm

end ResourceDescSet

end Alpine

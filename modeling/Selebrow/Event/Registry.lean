import Selebrow.Event.Broker
import Selebrow.Transition.Entries

/-!
# Who is in the lists

The lists of `subs` against the channels themselves: while no `ShutDown` runs, the list of
a type has exactly the open channels that were subscribed to it, each of them once.  A
running `ShutDown` leaves closed channels in the lists that it has not deleted yet, and has
all of these among its keys.
-/

namespace Selebrow.Event

open Transition

/-- What the lists say of a channel, without its values. -/
structure Status where
  eventTypes : EventTypes
  since : Nat
  closedBy : List Nat
  closed : Bool

def Subscriber.status {π : Type} (sub : Subscriber π) : Status :=
  ⟨sub.eventTypes, sub.since, sub.closedBy, sub.chan.closed⟩

/-- `n` calls of `ShutDown` have returned, and `sd` is the one that runs. -/
structure Listed (subs : GoMap GoString (List Nat)) (l : List Status) (sd : Option ShutDown)
    (n : Nat) : Prop where
  nodup : ∀ et, (chsOf subs et).Nodup
  listed : ∀ et c, c ∈ chsOf subs et → ∃ st, l[c]? = some st ∧ et ∈ st.eventTypes.names
  kept : ∀ c st et, l[c]? = some st → st.closed = false → et ∈ st.eventTypes.names →
    c ∈ chsOf subs et
  known : ∀ et c st, c ∈ chsOf subs et → l[c]? = some st → st.closed = true →
    ∃ d, sd = some d ∧ c ∈ d.closed
  keys : ∀ d c st, sd = some d → c ∈ d.closed → l[c]? = some st → st.closed = true
  current : ∀ d et chs, sd = some d → d.current = some (et, chs) →
    chs ⊆ chsOf subs et ∧ ∀ c ∈ chsOf subs et, c ∈ chs ∨ c ∈ d.closed
  closedBy : ∀ st ∈ l, st.closedBy = if st.closed then [st.since] else []
  since : ∀ st ∈ l, st.closed = false → st.eventTypes.names ≠ [] → st.since = n

/-! ## The map -/

theorem chsOf_insert (subs : GoMap GoString (List Nat)) (et : GoString) (chs : List Nat)
    (et' : GoString) :
    chsOf (subs.insert et chs) et' = if et' = et then chs else chsOf subs et' := by
  rw [chsOf, GoMap.lookup_insert]
  split
  · rfl
  · rfl

theorem chsOf_delete (subs : GoMap GoString (List Nat)) (et et' : GoString) :
    chsOf (subs.delete et) et' = if et' = et then [] else chsOf subs et' := by
  rw [chsOf, GoMap.lookup_delete]
  split
  · rfl
  · rfl

theorem chsOf_addSubs (subs : GoMap GoString (List Nat)) {names : List GoString}
    (hnodup : names.Nodup) (ch : Nat) (et : GoString) :
    chsOf (addSubs subs names ch) et = chsOf subs et ++ if et ∈ names then [ch] else [] := by
  induction names generalizing subs with
  | nil => exact (List.append_nil _).symm
  | cons t rest ih =>
    rw [List.nodup_cons] at hnodup
    show chsOf (addSubs (subs.insert t (chsOf subs t ++ [ch])) rest ch) et = _
    rw [ih _ hnodup.2, chsOf_insert]
    by_cases ht : et = t
    · subst ht
      rw [if_pos rfl, if_neg hnodup.1, if_pos List.mem_cons_self, List.append_nil]
    · rw [if_neg ht]
      simp only [List.mem_cons, ht, false_or]

/-! ## What the steps keep -/

section

variable {subs : GoMap GoString (List Nat)} {l : List Status} {sd : Option ShutDown} {n : Nat}

theorem listed_init : Listed GoMap.empty [] none 0 := by
  refine ⟨?_, ?_, ?_, ?_, ?_, ?_, ?_, ?_⟩
  · intro et
    exact List.nodup_nil
  · intro et c hc
    exact absurd hc List.not_mem_nil
  · intro c st et hst
    simp at hst
  · intro et c st hc
    exact absurd hc List.not_mem_nil
  · intro d c st hd
    contradiction
  · intro d et chs hd
    contradiction
  · intro st hst
    exact absurd hst List.not_mem_nil
  · intro st hst
    exact absurd hst List.not_mem_nil

/-- While no `ShutDown` runs, the channels in the lists are open. -/
theorem Listed.open_of_idle (h : Listed subs l none n) {et : GoString} {c : Nat}
    (hc : c ∈ chsOf subs et) :
    ∃ st, l[c]? = some st ∧ et ∈ st.eventTypes.names ∧ st.closed = false := by
  obtain ⟨st, hst, het⟩ := h.listed et c hc
  refine ⟨st, hst, het, ?_⟩
  rw [← Bool.not_eq_true]
  intro hclosed
  obtain ⟨d, hd, _⟩ := h.known et c st hc hst hclosed
  contradiction

theorem Listed.subscribe (h : Listed subs l none n) (ts : EventTypes) :
    Listed (addSubs subs ts.names l.length) (l ++ [⟨ts, n, [], false⟩]) none n := by
  have hmem : ∀ {et c}, c ∈ chsOf (addSubs subs ts.names l.length) et ↔
      c ∈ chsOf subs et ∨ (et ∈ ts.names ∧ c = l.length) := by
    intro et c
    rw [chsOf_addSubs subs ts.nodup, List.mem_append]
    by_cases het : et ∈ ts.names
    · rw [if_pos het, List.mem_singleton]
      simp only [het, true_and]
    · rw [if_neg het]
      simp only [het, List.not_mem_nil, false_and]
  have hlt : ∀ {et c}, c ∈ chsOf subs et → c < l.length := by
    intro et c hc
    obtain ⟨st, hst, _⟩ := h.listed et c hc
    exact lt_of_getElem? hst
  refine ⟨?_, ?_, ?_, ?_, ?_, ?_, ?_, ?_⟩
  · intro et
    rw [chsOf_addSubs subs ts.nodup]
    split
    · rw [List.nodup_append]
      refine ⟨h.nodup et, by simp, ?_⟩
      intro c hc d hd
      have := hlt hc
      rw [List.mem_singleton] at hd
      omega
    · rw [List.append_nil]
      exact h.nodup et
  · intro et c hc
    rcases hmem.mp hc with hc | ⟨het, rfl⟩
    · obtain ⟨st, hst, het⟩ := h.listed et c hc
      exact ⟨st, getElem?_append_some hst, het⟩
    · exact ⟨_, List.getElem?_concat_length, het⟩
  · intro c st et hst hopen het
    apply hmem.mpr
    rcases getElem?_concat_some hst with hst | ⟨hc, rfl⟩
    · exact .inl (h.kept c st et hst hopen het)
    · exact .inr ⟨het, hc⟩
  · intro et c st hc hst hclosed
    rcases getElem?_concat_some hst with hst | ⟨hlast, rfl⟩
    · rcases hmem.mp hc with hc | ⟨_, rfl⟩
      · exact h.known et c st hc hst hclosed
      · have := lt_of_getElem? hst
        omega
    · contradiction
  · intro d c st hd
    contradiction
  · intro d et chs hd
    contradiction
  · exact forall_mem_append h.closedBy (by simp)
  · exact forall_mem_append h.since (by simp)

theorem Listed.shutDown (h : Listed subs l none n) : Listed subs l (some ⟨[], none⟩) n := by
  refine ⟨h.nodup, h.listed, h.kept, ?_, ?_, ?_, h.closedBy, h.since⟩
  · intro et c st hc hst hclosed
    obtain ⟨d, hd, _⟩ := h.known et c st hc hst hclosed
    contradiction
  · intro d c st hd hc
    cases hd
    exact absurd hc List.not_mem_nil
  · intro d et chs hd hcur
    cases hd
    contradiction

/-- The loops move on without a change of the map or of a channel. -/
theorem Listed.moveOn {closed : List Nat} {cur cur' : Option (GoString × List Nat)}
    (h : Listed subs l (some ⟨closed, cur⟩) n)
    (hcur : ∀ et chs, cur' = some (et, chs) →
      chs ⊆ chsOf subs et ∧ ∀ c ∈ chsOf subs et, c ∈ chs ∨ c ∈ closed) :
    Listed subs l (some ⟨closed, cur'⟩) n := by
  refine ⟨h.nodup, h.listed, h.kept, ?_, ?_, ?_, h.closedBy, h.since⟩
  · intro et c st hc hst hclosed
    obtain ⟨d, hd, hkey⟩ := h.known et c st hc hst hclosed
    cases hd
    exact ⟨_, rfl, hkey⟩
  · intro d c st hd hc hst
    cases hd
    exact h.keys _ c st rfl hc hst
  · intro d et chs hd hcur'
    cases hd
    exact hcur et chs hcur'

theorem Listed.nextType {closed : List Nat} {et : GoString} {chs : List Nat}
    (h : Listed subs l (some ⟨closed, none⟩) n) (hchs : subs.lookup et = some chs) :
    Listed subs l (some ⟨closed, some (et, chs)⟩) n := by
  apply h.moveOn
  intro et' chs' heq
  cases heq
  have hof : chsOf subs et = chs := by rw [chsOf, hchs, Option.getD_some]
  rw [hof]
  exact ⟨List.Subset.refl _, fun c hc => .inl hc⟩

theorem Listed.skip {closed : List Nat} {et : GoString} {ch : Nat} {chs : List Nat}
    (h : Listed subs l (some ⟨closed, some (et, ch :: chs)⟩) n) (hch : ch ∈ closed) :
    Listed subs l (some ⟨closed, some (et, chs)⟩) n := by
  apply h.moveOn
  intro et' chs' heq
  cases heq
  obtain ⟨hsub, hall⟩ := h.current _ et (ch :: chs) rfl rfl
  refine ⟨List.Subset.trans (List.subset_cons_self ch chs) hsub, ?_⟩
  intro c hc
  rcases hall c hc with hc | hc
  · rcases List.mem_cons.mp hc with rfl | hc
    · exact .inr hch
    · exact .inl hc
  · exact .inr hc

/-- The channel that the inner loop is about to close is open. -/
theorem Listed.not_closed {closed : List Nat} {et : GoString} {ch : Nat} {chs : List Nat}
    (h : Listed subs l (some ⟨closed, some (et, ch :: chs)⟩) n) (hch : ch ∉ closed) :
    ∃ st, l[ch]? = some st ∧ st.closed = false ∧ st.eventTypes.names ≠ [] := by
  have hmem : ch ∈ chsOf subs et := (h.current _ et (ch :: chs) rfl rfl).1 List.mem_cons_self
  obtain ⟨st, hst, het⟩ := h.listed et ch hmem
  refine ⟨st, hst, ?_, List.ne_nil_of_mem het⟩
  rw [← Bool.not_eq_true]
  intro hclosed
  obtain ⟨d, hd, hkey⟩ := h.known et ch st hmem hst hclosed
  cases hd
  exact hch hkey

theorem Listed.close {closed : List Nat} {et : GoString} {ch : Nat} {chs : List Nat} {st : Status}
    (h : Listed subs l (some ⟨closed, some (et, ch :: chs)⟩) n) (hch : ch ∉ closed)
    (hst : l[ch]? = some st) :
    Listed subs (l.set ch { st with closed := true, closedBy := st.closedBy ++ [n] })
      (some ⟨ch :: closed, some (et, chs)⟩) n := by
  obtain ⟨st', hst', hopen, hne⟩ := h.not_closed hch
  rw [hst, Option.some.injEq] at hst'
  subst hst'
  have hmem := List.mem_of_getElem? hst
  obtain ⟨hsub, hall⟩ := h.current _ et (ch :: chs) rfl rfl
  refine ⟨h.nodup, ?_, ?_, ?_, ?_, ?_, ?_, ?_⟩
  · intro et' c hc
    obtain ⟨st', hst', het'⟩ := h.listed et' c hc
    by_cases hcc : ch = c
    · subst hcc
      rw [hst, Option.some.injEq] at hst'
      subst hst'
      exact ⟨_, getElem?_set_eq hst, het'⟩
    · refine ⟨st', ?_, het'⟩
      rw [List.getElem?_set_ne hcc]
      exact hst'
  · intro c st' et' hst' hopen' het'
    rcases getElem?_set_some hst' with ⟨_, rfl⟩ | ⟨_, hst'⟩
    · contradiction
    · exact h.kept c st' et' hst' hopen' het'
  · intro et' c st' hc hst' hclosed
    refine ⟨_, rfl, ?_⟩
    rcases getElem?_set_some hst' with ⟨rfl, _⟩ | ⟨_, hst'⟩
    · exact List.mem_cons_self
    · obtain ⟨d, hd, hkey⟩ := h.known et' c st' hc hst' hclosed
      cases hd
      exact List.mem_cons_of_mem ch hkey
  · intro d c st' hd hc hst'
    cases hd
    rcases getElem?_set_some hst' with ⟨_, rfl⟩ | ⟨hne', hst'⟩
    · rfl
    · rcases List.mem_cons.mp hc with rfl | hc
      · exact absurd rfl hne'
      · exact h.keys _ c st' rfl hc hst'
  · intro d et' chs' hd hcur
    cases hd
    cases hcur
    refine ⟨List.Subset.trans (List.subset_cons_self ch chs) hsub, ?_⟩
    intro c hc
    rcases hall c hc with hc | hc
    · rcases List.mem_cons.mp hc with rfl | hc
      · exact .inr List.mem_cons_self
      · exact .inl hc
    · exact .inr (List.mem_cons_of_mem ch hc)
  · apply forall_mem_set h.closedBy
    show st.closedBy ++ [n] = [st.since]
    rw [h.closedBy st hmem, hopen, h.since st hmem hopen hne]
    rfl
  · apply forall_mem_set h.since
    intro hopen'
    contradiction

theorem Listed.deleteType {closed : List Nat} {et : GoString}
    (h : Listed subs l (some ⟨closed, some (et, [])⟩) n) :
    Listed (subs.delete et) l (some ⟨closed, none⟩) n := by
  have hmem : ∀ {et' c}, c ∈ chsOf (subs.delete et) et' → c ∈ chsOf subs et' := by
    intro et' c hc
    rw [chsOf_delete] at hc
    split at hc
    · exact absurd hc List.not_mem_nil
    · exact hc
  refine ⟨?_, ?_, ?_, ?_, ?_, ?_, h.closedBy, h.since⟩
  · intro et'
    rw [chsOf_delete]
    split
    · exact List.nodup_nil
    · exact h.nodup et'
  · intro et' c hc
    exact h.listed et' c (hmem hc)
  · intro c st et' hst hopen het'
    have hc := h.kept c st et' hst hopen het'
    rw [chsOf_delete]
    split
    · -- the channels of the type that goes are all closed
      rename_i heq
      subst heq
      rcases (h.current _ et' [] rfl rfl).2 c hc with hnil | hkey
      · exact absurd hnil List.not_mem_nil
      · have := h.keys _ c st rfl hkey hst
        rw [hopen] at this
        contradiction
    · exact hc
  · intro et' c st hc hst hclosed
    obtain ⟨d, hd, hkey⟩ := h.known et' c st (hmem hc) hst hclosed
    cases hd
    exact ⟨_, rfl, hkey⟩
  · intro d c st hd hc hst
    cases hd
    exact h.keys _ c st rfl hc hst
  · intro d et' chs hd hcur
    cases hd
    contradiction

theorem Listed.returns {closed : List Nat} {cur : Option (GoString × List Nat)}
    (h : Listed subs l (some ⟨closed, cur⟩) n) (hempty : subs.entries = []) :
    Listed subs l none (n + 1) := by
  have hof : ∀ et, chsOf subs et = [] := by
    intro et
    rw [chsOf, GoMap.lookup, hempty]
    rfl
  have hno : ∀ {et c}, c ∉ chsOf subs et := by
    intro et c
    rw [hof]
    exact List.not_mem_nil
  refine ⟨h.nodup, h.listed, h.kept, ?_, ?_, ?_, h.closedBy, ?_⟩
  · intro et c st hc
    exact absurd hc hno
  · intro d c st hd
    contradiction
  · intro d et chs hd
    contradiction
  · intro st hst hopen hne
    obtain ⟨c, hc⟩ := List.mem_iff_getElem?.mp hst
    obtain ⟨et, het⟩ := List.exists_mem_of_ne_nil _ hne
    exact absurd (h.kept c st et hc hopen het) hno

end

end Selebrow.Event

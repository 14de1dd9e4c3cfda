import Sintra.Lib.Updates
import Sintra.Messaging.HandlerSlots

/-!
# The lists of handlers and deactivators

Every slot is in the list of handlers it was put in, or has been erased from it once; the same holds of
the entries in the lists of deactivators. A slot and its entry are erased together. The entry of an
activation by name is erased with its slot, or when the activation is cancelled before there is one.

* `Registered.activate`, `Registered.activateNamed`, `Registered.available`, `Registered.cancelNamed`,
  `Registered.remove` — every operation keeps it.
-/

namespace Sintra.Messaging.Handlers

open Function Updates Option

/-! ### The lists -/

/-- A slot is in the list it was put in, or has been erased once. -/
structure HandlerLists (g : Registry) : Prop where
  fresh : ∀ x, g.registration x = none → g.removals x = 0 ∧ ∀ t sid, x ∉ g.handlers t sid
  here : ∀ x r, g.registration x = some r →
    (g.handlers r.messageTypeId r.effectiveSenderId).count x + g.removals x = 1
  elsewhere : ∀ x r t sid, g.registration x = some r → x ∈ g.handlers t sid →
    t = r.messageTypeId ∧ sid = r.effectiveSenderId

/-- The same of an entry in a list of deactivators. -/
structure EntryLists (g : Registry) : Prop where
  fresh : ∀ e, g.ownerOf e = none → g.entryRemovals e = 0 ∧ ∀ o, e ∉ g.deactivators o
  here : ∀ e o, g.ownerOf e = some o → (g.deactivators o).count e + g.entryRemovals e = 1
  elsewhere : ∀ e o o', g.ownerOf e = some o → e ∈ g.deactivators o' → o' = o

/-- A slot and its entry go together. -/
structure Links (g : Registry) : Prop where
  entryOf : ∀ x r, g.registration x = some r →
    g.ownerOf r.entry = some r.owner ∧ g.entryRemovals r.entry = g.removals x
  entrySlot : ∀ x r, g.registration x = some r →
    r.entry = .slot x ∨ ∃ n a, r.entry = .named n ∧ g.named n = some a ∧ a.handlerDeactivator = some x
  slotFresh : ∀ x, g.registration x = none → g.ownerOf (.slot x) = none
  namedFresh : ∀ n, g.named n = none → g.ownerOf (.named n) = none
  namedOwner : ∀ n a, g.named n = some a → g.ownerOf (.named n) = some a.owner
  namedFree : ∀ n a, g.named n = some a → a.handlerDeactivator = none →
    g.entryRemovals (.named n) = if a.cancelled then 1 else 0
  namedSlot : ∀ n a x, g.named n = some a → a.handlerDeactivator = some x →
    ∃ r, g.registration x = some r ∧ r.entry = .named n

/-- The invariant of the lists. -/
structure Registered (g : Registry) : Prop where
  handlers : HandlerLists g
  entries : EntryLists g
  links : Links g

section

variable {g : Registry} {x y : Slot} {r : Registration} {e : Deactivator} {o : Owner} {n : ℕ}
  {a : NamedActivation}

theorem addSlot_registration (hy : g.registration y ≠ none) :
    (g.addSlot x r).registration y ≠ none := by
  show update g.registration x (some r) y ≠ none
  obtain rfl | hyx := eq_or_ne y x
  · rw [update_self]
    nofun
  · rwa [update_of_ne hyx]

theorem handlerLists_iff : HandlerLists g ↔ Placed g.registration
    (fun r => (r.messageTypeId, r.effectiveSenderId)) (fun k => g.handlers k.1 k.2) g.removals := by
  constructor
  · intro h
    refine ⟨fun x hx => ⟨(h.fresh x hx).1, fun k => (h.fresh x hx).2 k.1 k.2⟩, h.here, fun x r k hx hin => ?_⟩
    obtain ⟨ht, hsid⟩ := h.elsewhere x r k.1 k.2 hx hin
    exact Prod.ext ht hsid
  · intro h
    refine ⟨fun x hx => ⟨(h.fresh x hx).1, fun t sid => (h.fresh x hx).2 (t, sid)⟩, h.here, ?_⟩
    exact fun x r t sid hx hin => Prod.mk.inj (h.elsewhere x r (t, sid) hx hin)

theorem entryLists_iff : EntryLists g ↔ Placed g.ownerOf id g.deactivators g.entryRemovals :=
  ⟨fun h => { h with }, fun h => { h with }⟩

theorem HandlerLists.addSlot (h : HandlerLists g) (hx : g.registration x = none) (r : Registration) :
    HandlerLists (g.addSlot x r) := by
  refine handlerLists_iff.2 ((handlerLists_iff.1 h).add hx fun k => ?_)
  simp only [Registry.addSlot, Prod.ext_iff]

theorem HandlerLists.eraseSlot (h : HandlerLists g) (hx : g.registration x = some r)
    (hremovals : g.removals x = 0) : HandlerLists (g.eraseSlot x r) := by
  refine handlerLists_iff.2 ((handlerLists_iff.1 h).erase hx hremovals fun k => ?_)
  simp only [Registry.eraseSlot, Prod.ext_iff]

theorem EntryLists.addEntry (h : EntryLists g) (he : g.ownerOf e = none) (o : Owner) :
    EntryLists (g.addEntry e o) := by
  refine entryLists_iff.2 ((entryLists_iff.1 h).add he fun o' => ?_)
  simp only [Registry.addEntry, update_apply, id]
  split_ifs with ho
  · rw [ho]
  · rfl

theorem EntryLists.eraseEntry (h : EntryLists g) (he : g.ownerOf e = some o)
    (hremovals : g.entryRemovals e = 0) : EntryLists (g.eraseEntry e o) := by
  refine entryLists_iff.2 ((entryLists_iff.1 h).erase he hremovals fun o' => ?_)
  simp only [Registry.eraseEntry, update_apply, id]
  split_ifs with ho
  · rw [ho]
  · rfl

/-- The entry tells the slot. -/
theorem Links.entry_inj {r' : Registration} (h : Links g) (hx : g.registration x = some r)
    (hy : g.registration y = some r') (heq : r.entry = r'.entry) : x = y := by
  rcases h.entrySlot x r hx with hrx | ⟨n, a, hrx, ha, hxa⟩
  · rcases h.entrySlot y r' hy with hry | ⟨m, b, hry, -, -⟩
    · exact Deactivator.slot.inj (hrx.symm.trans (heq.trans hry))
    · cases hrx.symm.trans (heq.trans hry)
  · rcases h.entrySlot y r' hy with hry | ⟨m, b, hry, hb, hyb⟩
    · cases hrx.symm.trans (heq.trans hry)
    · obtain rfl := Deactivator.named.inj (hrx.symm.trans (heq.trans hry))
      obtain rfl := mem_unique ha hb
      exact mem_unique hxa hyb

/-- The entry of a slot has an owner. -/
theorem Links.entry_ne (h : Links g) (hx : g.registration x = some r) (he : g.ownerOf e = none) :
    r.entry ≠ e := by
  rintro rfl
  obtain ⟨hown, -⟩ := h.entryOf x r hx
  cases hown.symm.trans he

/-- An activation without a slot: no slot has its entry. -/
theorem Links.entry_ne_named (h : Links g) (hx : g.registration x = some r) (ha : g.named n = some a)
    (hnone : a.handlerDeactivator = none) : r.entry ≠ .named n := by
  intro heq
  rcases h.entrySlot x r hx with hentry | ⟨m, b, hentry, hb, hxb⟩
  · cases hentry.symm.trans heq
  · obtain rfl := Deactivator.named.inj (hentry.symm.trans heq)
    obtain rfl := mem_unique ha hb
    cases hnone.symm.trans hxb

theorem Registered.activate (h : Registered g) (hx : g.registration x = none)
    (hr : r.entry = .slot x) : Registered ((g.addSlot x r).addEntry (.slot x) r.owner) := by
  have hfresh := h.links.slotFresh x hx
  have hhandlers := h.handlers.addSlot hx r
  refine ⟨{ hhandlers with }, ?_, ?_⟩
  · exact EntryLists.addEntry (g := g.addSlot x r) { h.entries with } hfresh r.owner
  · have howner : ∀ {e}, e ≠ .slot x → ((g.addSlot x r).addEntry (.slot x) r.owner).ownerOf e =
        g.ownerOf e := fun hne => update_of_ne hne ..
    refine ⟨fun y r' hy => ?_, fun y r' hy => ?_, fun y hy => ?_, fun n hn => ?_, fun n a ha => ?_,
      h.links.namedFree, fun n a y ha hy => ?_⟩
    · obtain ⟨rfl, ⟨⟩⟩ | ⟨hne, hy⟩ := update_cases hy
      · rw [hr]
        refine ⟨update_self .., ?_⟩
        exact (h.entries.fresh _ hfresh).1.trans (h.handlers.fresh y hx).1.symm
      · rw [howner (h.links.entry_ne hy hfresh)]
        exact h.links.entryOf y r' hy
    · obtain ⟨rfl, ⟨⟩⟩ | ⟨hne, hy⟩ := update_cases hy
      · exact .inl hr
      · exact h.links.entrySlot y r' hy
    · obtain ⟨-, ⟨⟩⟩ | ⟨hne, hy⟩ := update_cases hy
      rw [howner fun heq => hne (Deactivator.slot.inj heq)]
      exact h.links.slotFresh y hy
    · exact h.links.namedFresh n hn
    · exact h.links.namedOwner n a ha
    · obtain ⟨r', hr', hentry⟩ := h.links.namedSlot n a y ha hy
      have hne : y ≠ x := by
        rintro rfl
        cases hx.symm.trans hr'
      exact ⟨r', (update_of_ne hne ..).trans hr', hentry⟩

theorem Registered.activateNamed (h : Registered g) (hn : g.named n = none) (o : Owner) :
    Registered ((g.addEntry (.named n) o).setNamed n ⟨o, false, none⟩) := by
  have hfresh := h.links.namedFresh n hn
  have hentries := h.entries.addEntry hfresh o
  refine ⟨{ h.handlers with }, { hentries with }, ?_⟩
  have howner : ∀ {e}, e ≠ .named n → ((g.addEntry (.named n) o).setNamed n ⟨o, false, none⟩).ownerOf e =
      g.ownerOf e := fun hne => update_of_ne hne ..
  refine ⟨fun x r hx => ?_, fun x r hx => ?_, fun x hx => ?_, fun m hm => ?_, fun m a hm => ?_,
    fun m a hm hnone => ?_, fun m a x hm hx => ?_⟩
  · rw [howner (h.links.entry_ne hx hfresh)]
    exact h.links.entryOf x r hx
  · rcases h.links.entrySlot x r hx with hentry | ⟨m, a, hentry, ha, hxa⟩
    · exact .inl hentry
    · have hne : m ≠ n := by
        rintro rfl
        cases hn.symm.trans ha
      exact .inr ⟨m, a, hentry, (update_of_ne hne ..).trans ha, hxa⟩
  · exact h.links.slotFresh x hx
  · obtain ⟨-, ⟨⟩⟩ | ⟨hne, hm⟩ := update_cases hm
    rw [howner fun heq => hne (Deactivator.named.inj heq)]
    exact h.links.namedFresh m hm
  · obtain ⟨rfl, ⟨⟩⟩ | ⟨hne, hm⟩ := update_cases hm
    · exact update_self ..
    · rw [howner fun heq => hne (Deactivator.named.inj heq)]
      exact h.links.namedOwner m a hm
  · obtain ⟨rfl, ⟨⟩⟩ | ⟨-, hm⟩ := update_cases hm
    · exact (h.entries.fresh _ hfresh).1
    · exact h.links.namedFree m a hm hnone
  · obtain ⟨rfl, ⟨⟩⟩ | ⟨-, hm⟩ := update_cases hm
    · cases hx
    · exact h.links.namedSlot m a x hm hx

theorem Registered.available (h : Registered g) (ha : g.named n = some a)
    (hnone : a.handlerDeactivator = none) (hcancelled : a.cancelled = false)
    (hx : g.registration x = none) (hr : r.entry = .named n) (howner : r.owner = a.owner) :
    Registered ((g.addSlot x r).setNamed n { a with handlerDeactivator := some x }) := by
  have hhandlers := h.handlers.addSlot hx r
  refine ⟨{ hhandlers with }, { h.entries with }, ?_⟩
  refine ⟨fun y r' hy => ?_, fun y r' hy => ?_, fun y hy => ?_, fun m hm => ?_, fun m b hm => ?_,
    fun m b hm hb => ?_, fun m b y hm hy => ?_⟩
  · obtain ⟨rfl, ⟨⟩⟩ | ⟨-, hy⟩ := update_cases hy
    · rw [hr, howner]
      refine ⟨h.links.namedOwner n a ha, ?_⟩
      exact ((h.links.namedFree n a ha hnone).trans (by rw [hcancelled]; rfl)).trans
        (h.handlers.fresh y hx).1.symm
    · exact h.links.entryOf y r' hy
  · obtain ⟨rfl, ⟨⟩⟩ | ⟨-, hold⟩ := update_cases hy
    · exact .inr ⟨n, _, hr, update_self .., rfl⟩
    · rcases h.links.entrySlot y r' hold with hentry | ⟨m, b, hentry, hb, hyb⟩
      · exact .inl hentry
      · have hmn : m ≠ n := by
          rintro rfl
          exact h.links.entry_ne_named hold ha hnone hentry
        exact .inr ⟨m, b, hentry, (update_of_ne hmn ..).trans hb, hyb⟩
  · obtain ⟨-, ⟨⟩⟩ | ⟨-, hy⟩ := update_cases hy
    exact h.links.slotFresh y hy
  · obtain ⟨-, ⟨⟩⟩ | ⟨-, hm⟩ := update_cases hm
    exact h.links.namedFresh m hm
  · obtain ⟨rfl, ⟨⟩⟩ | ⟨-, hm⟩ := update_cases hm
    · exact h.links.namedOwner m a ha
    · exact h.links.namedOwner m b hm
  · obtain ⟨rfl, ⟨⟩⟩ | ⟨-, hm⟩ := update_cases hm
    · cases hb
    · exact h.links.namedFree m b hm hb
  · obtain ⟨rfl, ⟨⟩⟩ | ⟨-, hm⟩ := update_cases hm
    · cases hy
      exact ⟨r, update_self .., hr⟩
    · obtain ⟨r', hr', hentry⟩ := h.links.namedSlot m b y hm hy
      have hyx : y ≠ x := by
        rintro rfl
        cases hx.symm.trans hr'
      exact ⟨r', (update_of_ne hyx ..).trans hr', hentry⟩

/-- An activation by name is cancelled; its entry is erased if there is no slot. -/
theorem Registered.cancelNamed (h : Registered g) (ha : g.named n = some a) :
    Registered (g.cancelNamed n a) := by
  unfold Registry.cancelNamed
  split_ifs with hcancelled
  · exact h
  -- The state of the activation has the same owner and the same slot as before.
  have hold : ∀ {m b}, (g.setNamed n { a with cancelled := true }).named m = some b →
      ∃ c, g.named m = some c ∧ c.owner = b.owner ∧ c.handlerDeactivator = b.handlerDeactivator := by
    intro m b hm
    obtain ⟨rfl, ⟨⟩⟩ | ⟨-, hm⟩ := update_cases hm
    · exact ⟨a, ha, rfl, rfl⟩
    · exact ⟨b, hm, rfl, rfl⟩
  have hentrySlot : ∀ y r, g.registration y = some r → r.entry = .slot y ∨ ∃ m b, r.entry = .named m ∧
      (g.setNamed n { a with cancelled := true }).named m = some b ∧ b.handlerDeactivator = some y := by
    intro y r hy
    rcases h.links.entrySlot y r hy with hentry | ⟨m, b, hentry, hb, hyb⟩
    · exact .inl hentry
    · obtain rfl | hne := eq_or_ne m n
      · obtain rfl := mem_unique ha hb
        exact .inr ⟨m, _, hentry, update_self .., hyb⟩
      · exact .inr ⟨m, b, hentry, (update_of_ne hne ..).trans hb, hyb⟩
  have hfresh : ∀ m, (g.setNamed n { a with cancelled := true }).named m = none →
      g.ownerOf (.named m) = none := by
    intro m hm
    obtain ⟨-, ⟨⟩⟩ | ⟨-, hm⟩ := update_cases hm
    exact h.links.namedFresh m hm
  have howner : ∀ m b, (g.setNamed n { a with cancelled := true }).named m = some b →
      g.ownerOf (.named m) = some b.owner := by
    intro m b hm
    obtain ⟨c, hc, hown, -⟩ := hold hm
    rw [← hown]
    exact h.links.namedOwner m c hc
  have hslot : ∀ m b y, (g.setNamed n { a with cancelled := true }).named m = some b →
      b.handlerDeactivator = some y → ∃ r, g.registration y = some r ∧ r.entry = .named m := by
    intro m b y hm hy
    obtain ⟨c, hc, -, hdeactivator⟩ := hold hm
    exact h.links.namedSlot m c y hc (hdeactivator.trans hy)
  split
  next hdeactivator =>
    have hzero : g.entryRemovals (.named n) = 0 := by
      rw [h.links.namedFree n a ha hdeactivator, if_neg hcancelled]
    have hentries := h.entries.eraseEntry (h.links.namedOwner n a ha) hzero
    refine ⟨{ h.handlers with }, { hentries with }, ?_⟩
    refine ⟨fun y r hy => ?_, hentrySlot, h.links.slotFresh, hfresh, howner, fun m b hm hb => ?_, hslot⟩
    · obtain ⟨hown, hremovals⟩ := h.links.entryOf y r hy
      exact ⟨hown, (update_of_ne (h.links.entry_ne_named hy ha hdeactivator) ..).trans hremovals⟩
    · show update g.entryRemovals (.named n) _ (.named m) = _
      obtain ⟨rfl, ⟨⟩⟩ | ⟨hne, hm⟩ := update_cases hm
      · rw [update_self]
        exact congrArg (· + 1) hzero
      · rw [update_of_ne fun heq => hne (Deactivator.named.inj heq)]
        exact h.links.namedFree m b hm hb
  next x hdeactivator =>
    refine ⟨{ h.handlers with }, { h.entries with }, ?_⟩
    refine ⟨h.links.entryOf, hentrySlot, h.links.slotFresh, hfresh, howner, fun m b hm hb => ?_, hslot⟩
    obtain ⟨rfl, ⟨⟩⟩ | ⟨-, hm⟩ := update_cases hm
    · cases hdeactivator.symm.trans hb
    · exact h.links.namedFree m b hm hb

theorem Registered.remove (h : Registered g) (hx : g.registration x = some r)
    (hremovals : g.removals x = 0) : Registered ((g.eraseSlot x r).eraseEntry r.entry r.owner) := by
  obtain ⟨howner, hentry⟩ := h.links.entryOf x r hx
  have hhandlers := h.handlers.eraseSlot hx hremovals
  have hentries := h.entries.eraseEntry howner (hentry.trans hremovals)
  refine ⟨{ hhandlers with }, { hentries with }, ?_⟩
  refine { h.links with entryOf := fun y r' hy => ?_, namedFree := fun m b hm hb => ?_ }
  · obtain ⟨hown', hremovals'⟩ := h.links.entryOf y r' hy
    refine ⟨hown', ?_⟩
    show update g.entryRemovals r.entry _ r'.entry = update g.removals x _ y
    obtain rfl | hne := eq_or_ne y x
    · obtain rfl := mem_unique hx hy
      rw [update_self, update_self]
      exact congrArg (· + 1) hentry
    · have hdiff : r'.entry ≠ r.entry := fun heq => hne (h.links.entry_inj hy hx heq)
      rw [update_of_ne hdiff, update_of_ne hne]
      exact hremovals'
  · have hdiff := (h.links.entry_ne_named hx hm hb).symm
    exact (update_of_ne hdiff ..).trans (h.links.namedFree m b hm hb)

end

end Sintra.Messaging.Handlers

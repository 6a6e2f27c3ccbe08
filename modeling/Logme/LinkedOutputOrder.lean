import Logme.DisplayOverLinks

/-!
# The order of linked output

A link is described as forwarding a record after the local backends are
processed.  `Display` forwards it first: along a chain of links the backends of
the last channel are written first and those of the first channel last.
-/

namespace Logme
namespace Logger

open PointerChain StepSystem

/-- The deliveries to a chain of channels, the first channel's before those of
the channel it links to. -/
def inLinkOrder (l : Logger) (r : Record) (chain : List Nat) : List Delivery :=
  (chain.filter (l.passes r)).flatMap l.deliveriesOf

/-- The channel passes the record and has a backend that is not frozen. -/
def Outputs (l : Logger) (r : Record) (c : Nat) : Prop :=
  l.passes r c = true ∧
    ∃ channel, l.heap[c]? = some channel ∧ channel.displayed ≠ []

theorem outputs_iff (l : Logger) (r : Record) (c : Nat) :
    l.Outputs r c ↔ l.passes r c = true ∧ l.deliveriesOf c ≠ [] := by
  unfold Outputs deliveriesOf ownDeliveries
  cases l.heap[c]? <;> simp

/-! ## What the code does -/

theorem display_chain {thread : OpenGuards Nat}
    (hreach : Reachable OpenGuards.step .start thread) {l : Logger} {r : Record}
    {c : Nat} {rest : List Nat}
    (hchain : Chain (l.next r) thread.channels (c :: rest)) :
    ∃ result, (∀ fuel, l.displayFuel ≤ fuel →
        display fuel l thread.state c r = some result) ∧
      result.deliveries = l.inLinkOrder r (c :: rest).reverse := by
  have hinv := OpenGuards.reachable_inv hreach
  have hstack : Chain (l.next r) thread.state.stack (c :: rest) := by
    obtain ⟨hnodup, hfresh, hlinked, hends⟩ := hchain
    refine ⟨hnodup, fun d hd => ?_, hlinked, fun d hd e he => ?_⟩
    · rw [hinv.mem_stack]
      exact hfresh d hd
    · rw [hinv.mem_stack]
      exact hends d hd e he
  obtain ⟨result, hresult⟩ := l.display_displaysOnce hinv.wellFormed c r
  have hwalk := walk_of_chain hstack (Nat.lt_succ_self (rest.length + 1))
  obtain ⟨walked, hwalked, hrestores⟩ := display_walk hinv.wellFormed hwalk
  refine ⟨result, hresult.returns, ?_⟩
  have hmore := display_mono hwalked (Nat.le_add_right _ l.displayFuel)
  rw [hresult.returns _ (Nat.le_add_left _ _), Option.some.injEq] at hmore
  rw [hmore]
  exact hrestores.deliveries

/-! ## When this is the order of the links -/

/-- A list of blocks that share nothing reads the same in both orders only when
at most one block is not empty. -/
theorem flatMap_reverse_eq_iff {α β : Type*} {blocks : List α} (f : α → List β)
    (origin : β → α) (horigin : ∀ a, ∀ x ∈ f a, origin x = a)
    (hnodup : blocks.Nodup) :
    blocks.reverse.flatMap f = blocks.flatMap f ↔
      ∀ a ∈ blocks, ∀ b ∈ blocks, f a ≠ [] → f b ≠ [] → a = b := by
  induction blocks with
  | nil => simp
  | cons a rest ih =>
      rw [List.nodup_cons] at hnodup
      rw [List.reverse_cons, List.flatMap_append, List.flatMap_cons,
        List.flatMap_cons, List.flatMap_nil, List.append_nil]
      cases hblock : f a with
      | nil =>
          rw [List.append_nil, List.nil_append, ih hnodup.2]
          simp [hblock]
      | cons x more =>
          have hx : origin x = a := horigin a x (by rw [hblock]; exact .head _)
          have hothers : (∀ b ∈ a :: rest, ∀ d ∈ a :: rest, f b ≠ [] → f d ≠ [] →
              b = d) ↔ ∀ b ∈ rest, f b = [] := by
            constructor
            · intro hall b hb
              by_contra hne
              have hab := hall a List.mem_cons_self b (List.mem_cons_of_mem a hb)
                (by simp [hblock]) hne
              exact hnodup.1 (hab ▸ hb)
            · intro hnone b hb d hd hfb hfd
              have honly : ∀ e ∈ a :: rest, f e ≠ [] → e = a := fun e he hfe =>
                (List.mem_cons.mp he).resolve_right fun he => hfe (hnone e he)
              rw [honly b hb hfb, honly d hd hfd]
          rw [hothers]
          constructor
          · intro heq
            cases hrev : rest.reverse.flatMap f with
            | nil => simpa using hrev
            | cons y more' =>
                -- the reversed list begins with a block of `rest`
                rw [hrev] at heq
                obtain ⟨rfl, -⟩ := List.cons.inj heq
                obtain ⟨b, hb, hy⟩ := List.mem_flatMap.mp
                  (hrev ▸ List.mem_cons_self : y ∈ rest.reverse.flatMap f)
                rw [horigin b y hy] at hx
                exact absurd (hx ▸ List.mem_reverse.mp hb) hnodup.1
          · intro hnone
            have hfront : rest.reverse.flatMap f = [] := by simpa using hnone
            have hback : rest.flatMap f = [] := by simpa using hnone
            rw [hfront, hback, List.append_nil, List.nil_append]

/-- The backends are written in the order of the links exactly when at most one
of the channels writes. -/
theorem linked_output_order {thread : OpenGuards Nat}
    (hreach : Reachable OpenGuards.step .start thread) {l : Logger} {r : Record}
    {c : Nat} {rest : List Nat}
    (hchain : Chain (l.next r) thread.channels (c :: rest)) :
    ∃ result, (∀ fuel, l.displayFuel ≤ fuel →
        display fuel l thread.state c r = some result) ∧
      (result.deliveries = l.inLinkOrder r (c :: rest) ↔
        ∀ a ∈ c :: rest, ∀ b ∈ c :: rest, l.Outputs r a → l.Outputs r b →
          a = b) := by
  obtain ⟨result, hreturns, hdeliveries⟩ := display_chain hreach hchain
  refine ⟨result, hreturns, ?_⟩
  rw [hdeliveries, inLinkOrder, inLinkOrder, List.filter_reverse,
    flatMap_reverse_eq_iff l.deliveriesOf Delivery.channel
      (fun a x hx => channel_of_mem_deliveriesOf hx) (hchain.nodup.filter _)]
  simp only [List.mem_filter, outputs_iff, and_imp]
  exact ⟨fun h a ha b hb hpa hna hpb hnb => h a ha hpa b hb hpb hna hnb,
    fun h a ha hpa b hb hpb hna hnb => h a ha b hb hpa hna hpb hnb⟩

/-- The default channel and a second channel that it links to, with a backend
each. -/
def linkPair : Logger :=
  let created := ((new 0).createChannelInternal [65] .default .default).2
  (created.modifyChannel 0 fun c => c.addLinkPtr (some 1)).modifyChannel 1
    fun c => c.addBackend 1

theorem linkPair_chain :
    Chain (linkPair.next ⟨.info, 0, none, []⟩)
      (OpenGuards.start : OpenGuards Nat).channels [0, 1] where
  nodup := by decide
  fresh := by decide
  linked := by decide
  ends := by
    intro c hc d hd
    obtain rfl : 1 = c := by simpa using hc
    have hnone : linkPair.next ⟨.info, 0, none, []⟩ 1 = none := by decide
    simp [hnone] at hd

theorem linked_output_order_pair :
    ∃ result, (∀ fuel, linkPair.displayFuel ≤ fuel →
        display fuel linkPair OpenGuards.start.state 0 ⟨.info, 0, none, []⟩ =
          some result) ∧
      (result.deliveries = linkPair.inLinkOrder ⟨.info, 0, none, []⟩ [0, 1] ↔
        ∀ a ∈ [0, 1], ∀ b ∈ [0, 1], linkPair.Outputs ⟨.info, 0, none, []⟩ a →
          linkPair.Outputs ⟨.info, 0, none, []⟩ b → a = b) :=
  linked_output_order .refl linkPair_chain

/-- The second channel's backend is written before the first channel's. -/
theorem linked_output_reversed :
    Chain (linkPair.next ⟨.info, 0, none, []⟩) [] [0, 1] ∧
      (∀ c ∈ [0, 1], linkPair.Outputs ⟨.info, 0, none, []⟩ c) ∧
      (display linkPair.displayFuel linkPair .initial 0
        ⟨.info, 0, none, []⟩).map (·.deliveries) = some [⟨1, 1⟩, ⟨0, 0⟩] ∧
      linkPair.inLinkOrder ⟨.info, 0, none, []⟩ [0, 1] ≠ [⟨1, 1⟩, ⟨0, 0⟩] := by
  refine ⟨linkPair_chain, ?_, by decide, by decide⟩
  simp only [outputs_iff]
  decide

end Logger
end Logme

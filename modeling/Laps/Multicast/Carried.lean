import Laps.Multicast.Peers

/-! What is true of the net after every step: each stream of a link carries a flow of the relay that
writes it, and each flow carries the subgroup of a publisher, as far as it has come. -/

namespace Laps.Multicast

open Client Flood Peering Pipes Relay

/-- A header without what differs from session to session. -/
def plain (header : DataHeader) : DataHeader := { header with headerLen := 0, snsId := 0 }

/-- A flow has what another one has, from its start on. -/
structure Flow.Carries (f h : Flow) : Prop where
  header : plain f.header = plain h.header
  payload : f.payload <+: h.payload
  closed : ∀ reset, f.closed = some reset → h.closed = some reset
  whole : f.closed = some false → f.payload = h.payload

namespace Flow.Carries

theorem refl (f : Flow) : f.Carries f := ⟨rfl, List.prefix_rfl, fun _ h => h, fun _ => rfl⟩

theorem trans {f g h : Flow} (hfg : f.Carries g) (hgh : g.Carries h) : f.Carries h :=
  ⟨hfg.header.trans hgh.header, hfg.payload.trans hgh.payload,
    fun reset hreset => hgh.closed reset (hfg.closed reset hreset),
    fun hfin => (hfg.whole hfin).trans (hgh.whole (hfg.closed false hfin))⟩

theorem grows {f h h' : Flow} (hfh : f.Carries h) (hgrows : h.Grows h') : f.Carries h' := by
  by_cases hclosed : f.closed = none
  · refine ⟨by rw [hfh.header, hgrows.header], hfh.payload.trans hgrows.payload, ?_, ?_⟩ <;>
      simp [hclosed]
  · obtain ⟨reset, hreset⟩ := Option.ne_none_iff_exists'.mp hclosed
    have hsame := hgrows.closed (by rw [hfh.closed reset hreset]; simp)
    rw [hsame]
    exact hfh

end Flow.Carries

/-- The bytes of a flow are those of another one up to where it has come. -/
theorem carries_of_bytes {f g : Flow} (hf : f.header.type = .newStream)
    (hg : g.header.type = .newStream) {snsId snsId' : SubscribeNodeSetId}
    (h : f.bytes snsId <+: g.bytes snsId') :
    plain f.header = plain g.header ∧ snsId = snsId' ∧ f.payload <+: g.payload := by
  let a : DataHeader := { f.header with snsId }
  let b : DataHeader := { g.header with snsId := snsId' }
  have ha : a.serialize.length = 19 := length_newStream hf
  have hb : b.serialize.length = 19 := length_newStream hg
  obtain ⟨rest, hrest⟩ := h
  have hsplit : a.serialize ++ (f.payload ++ rest) = b.serialize ++ g.payload := by
    rw [← List.append_assoc]
    exact hrest
  obtain ⟨hserialize, hpayload⟩ := List.append_inj hsplit (ha.trans hb.symm)
  have hread := deserialize_newStream (show a.type = .newStream from hf) []
  rw [hserialize, deserialize_newStream (show b.type = .newStream from hg) []] at hread
  have hheader : ({ b with headerLen := 19 } : DataHeader) = { a with headerLen := 19 } :=
    (Prod.mk.inj (Option.some.inj hread)).2
  refine ⟨?_, ?_, ⟨rest, hpayload⟩⟩
  · have hplain := congrArg plain hheader
    exact hplain.symm
  · exact congrArg DataHeader.snsId hheader.symm

section Inv

variable {ν δ : Type*} {g : PeeringGraph ν δ} {m : Moqt} {relays : ν → ClientRelay}
  {net : DataNet ν δ} {flows : ν → Flows}

/-- The flow carries the subgroup of some publisher. -/
def Sourced (flows : ν → Flows) (f : Flow) : Prop :=
  ∃ o track key h, flows o (.own track key) = some h ∧ f.Carries h

/-- The flow carries the one that writes its stream at the other end. -/
def Hops (g : PeeringGraph ν δ) (flows : ν → Flows) (d : δ) (s : UInt64) (f : Flow) : Prop :=
  ∃ k h, flows (g.node (g.opposite d)) k = some h ∧
    h.streams (g.sessionId (g.opposite d)) = some s ∧ f.Carries h

/-- The net has the flows. -/
structure DataInv (g : PeeringGraph ν δ) (m : Moqt) (relays : ν → ClientRelay) (net : DataNet ν δ)
    (flows : ν → Flows) : Prop where
  node : ∀ n, ∃ p, net.nodes n = some p ∧ Refines (relays n).relay p (flows n)
  reads : net.Reads g.toTopology (dataProtocol g m)
  received : ∀ d s,
    net.received g.toTopology (dataProtocol g m) d s = [] ∧
        (∀ snsId, flows (g.node d) (.peer ⟨g.sessionId d, snsId, s⟩) = none) ∨
      ∃ f, flows (g.node d) (.peer ⟨g.sessionId d, f.header.snsId, s⟩) = some f ∧
        net.received g.toTopology (dataProtocol g m) d s = f.bytes f.header.snsId
  ended : ∀ d s f snsId, flows (g.node d) (.peer ⟨g.sessionId d, snsId, s⟩) = some f →
    f.closed = if net.ended d s then net.close g.toTopology (dataProtocol g m) d s else none
  closes : ∀ d s, net.ended d s = true →
    net.close g.toTopology (dataProtocol g m) d s ≠ none ∧
      net.received g.toTopology (dataProtocol g m) d s ≠ []
  disjoint : ∀ d s, net.written g.toTopology (dataProtocol g m) d s ≠ [] →
    net.written g.toTopology (dataProtocol g m) (g.opposite d) s = []
  hops : ∀ d snsId s f, flows (g.node d) (.peer ⟨g.sessionId d, snsId, s⟩) = some f →
    Hops g flows d s f
  sourced : ∀ n k f, flows n k = some f → Sourced flows f

theorem written_eq {d : δ} {p : DataPeer} (hp : net.nodes (g.node d) = some p) (s : UInt64) :
    net.written g.toTopology (dataProtocol g m) d s = p.sent (g.sessionId d) s := by
  show (net.nodes (g.node d)).elim [] _ = _
  rw [hp]
  rfl

theorem close_eq {d : δ} {p : DataPeer} (hp : net.nodes (g.node (g.opposite d)) = some p)
    (s : UInt64) : net.close g.toTopology (dataProtocol g m) d s =
      (p.closes (g.sessionId (g.opposite d)) s).head? := by
  show (net.nodes (g.node (g.opposite d))).bind _ = _
  rw [hp]
  rfl

/-- What is on a stream that comes in is a flow of the relay at the other end. -/
theorem DataInv.upstream (h : DataInv g m relays net flows) {d : δ} {s : UInt64}
    (hwritten : net.written g.toTopology (dataProtocol g m) (g.opposite d) s ≠ []) :
    ∃ k f, flows (g.node (g.opposite d)) k = some f ∧
      f.streams (g.sessionId (g.opposite d)) = some s ∧
      net.written g.toTopology (dataProtocol g m) (g.opposite d) s =
        f.bytes (((relays (g.node (g.opposite d))).relay.flowRoute k
          (g.sessionId (g.opposite d))).getD 0) ∧
      net.close g.toTopology (dataProtocol g m) d s = f.closed ∧ f.header.type = .newStream := by
  obtain ⟨p, hp, hrefines⟩ := h.node (g.node (g.opposite d))
  rw [written_eq hp] at hwritten
  obtain ⟨k, f, hf, hstream⟩ := hrefines.continues.exists_of_sent hwritten
  obtain ⟨hsent, hcloses⟩ := hrefines.continues.onStream k f _ s hf hstream
  refine ⟨k, f, hf, hstream, by rw [written_eq hp, hsent], ?_, hrefines.continues.newStream k f hf⟩
  rw [close_eq hp, hcloses]
  cases f.closed <;> rfl

end Inv

/-! ### One relay moves -/

section Move

variable {ν δ : Type*} {g : PeeringGraph ν δ} {m : Moqt} {relays : ν → ClientRelay}
  {net net' : DataNet ν δ} {flows : ν → Flows} {n : ν} {p p' : DataPeer} {k : FlowKey} {f : Flow}

/-- A relay does something to one of its flows. -/
structure Move (g : PeeringGraph ν δ) (m : Moqt) (relays : ν → ClientRelay) (net : DataNet ν δ)
    (flows : ν → Flows) (n : ν) (p p' : DataPeer) (k : FlowKey) (f : Flow) : Prop where
  before : net.nodes n = some p
  refines : Refines (relays n).relay p' (Function.update (flows n) k (some f))
  extend : p.Extends p'
  grows : ∀ f₀, flows n k = some f₀ → f₀.Grows f
  fresh : ∀ d s, g.node d = n → f.streams (g.sessionId d) = some s →
    p.sent (g.sessionId d) s ≠ [] ∨
      net.written g.toTopology (dataProtocol g m) (g.opposite d) s = []

namespace Move

theorem appends (hmove : Move g m relays net flows n p p' k f) :
    Appends g.toTopology (dataProtocol g m) n (net.nodes n) (some p') := by
  rintro d s rfl
  rw [hmove.before]
  exact hmove.extend.sent (g.sessionId d) s

/-- A new stream has an id that is not used at the other end. -/
theorem unused (hmove : Move g m relays net flows n p p' k f) (h : DataInv g m relays net flows)
    {d : δ} (hd : g.node d = n) {s : UInt64} (hsent : p'.sent (g.sessionId d) s ≠ []) :
    net.written g.toTopology (dataProtocol g m) (g.opposite d) s = [] := by
  subst hd
  have hold : p.sent (g.sessionId d) s ≠ [] →
      net.written g.toTopology (dataProtocol g m) (g.opposite d) s = [] := fun hne =>
    h.disjoint d s (by rwa [written_eq hmove.before])
  obtain ⟨q, hq, hrefines⟩ := h.node (g.node d)
  rw [hmove.before, Option.some.injEq] at hq
  subst hq
  obtain ⟨k', f', hf', hstream⟩ := hmove.refines.continues.exists_of_sent hsent
  by_cases hk : k' = k
  · subst hk
    rw [Function.update_self, Option.some.injEq] at hf'
    subst hf'
    exact (hmove.fresh d s rfl hstream).elim hold id
  · rw [Function.update_of_ne hk] at hf'
    exact hold (hrefines.continues.sent_ne_nil hf' hstream)

variable [DecidableEq ν]

theorem node (hmove : Move g m relays net flows n p p' k f) (h : DataInv g m relays net flows)
    (hnodes : net'.nodes = Function.update net.nodes n (some p')) (n' : ν) :
    ∃ p₁, net'.nodes n' = some p₁ ∧ Refines (relays n').relay p₁ (update₂ flows n k (some f) n') := by
  rw [hnodes]
  by_cases hn : n' = n
  · subst hn
    rw [Function.update_self, update₂_row]
    exact ⟨p', rfl, hmove.refines⟩
  · rw [Function.update_of_ne hn, update₂_row_of_ne _ _ hn]
    exact h.node n'

theorem grow (hmove : Move g m relays net flows n p p' k f) {n' : ν} {k' : FlowKey} {f₀ : Flow}
    (hf₀ : flows n' k' = some f₀) :
    ∃ f₁, update₂ flows n k (some f) n' k' = some f₁ ∧ f₀.Grows f₁ := by
  by_cases hk : n' = n ∧ k' = k
  · obtain ⟨rfl, rfl⟩ := hk
    exact ⟨f, update₂_self .., hmove.grows f₀ hf₀⟩
  · exact ⟨f₀, by rw [update₂_of_ne _ _ hk, hf₀], .refl f₀⟩

/-- What carries a subgroup carries it after the move. -/
theorem sourced_of_sourced (hmove : Move g m relays net flows n p p' k f) {f₀ : Flow}
    (h : Sourced flows f₀) : Sourced (update₂ flows n k (some f)) f₀ := by
  obtain ⟨o, track, key, h₀, hown, hcarries⟩ := h
  obtain ⟨h₁, hown₁, hgrows⟩ := hmove.grow hown
  exact ⟨o, track, key, h₁, hown₁, hcarries.grows hgrows⟩

theorem hops_of_hops (hmove : Move g m relays net flows n p p' k f) {d : δ} {s : UInt64} {f₀ : Flow}
    (h : Hops g flows d s f₀) : Hops g (update₂ flows n k (some f)) d s f₀ := by
  obtain ⟨k₀, h₀, hflow, hstream, hcarries⟩ := h
  obtain ⟨h₁, hflow₁, hgrows⟩ := hmove.grow hflow
  exact ⟨k₀, h₁, hflow₁, by rw [hgrows.streams, hstream], hcarries.grows hgrows⟩

theorem sourced (hmove : Move g m relays net flows n p p' k f) (h : DataInv g m relays net flows)
    (hself : Sourced (update₂ flows n k (some f)) f) (n' : ν) (k' : FlowKey) (f₁ : Flow)
    (hf₁ : update₂ flows n k (some f) n' k' = some f₁) :
    Sourced (update₂ flows n k (some f)) f₁ := by
  by_cases hk : n' = n ∧ k' = k
  · obtain ⟨rfl, rfl⟩ := hk
    rw [update₂_self, Option.some.injEq] at hf₁
    rw [← hf₁]
    exact hself
  · rw [update₂_of_ne _ _ hk] at hf₁
    exact hmove.sourced_of_sourced (h.sourced n' k' f₁ hf₁)

theorem written_of_ne (hnodes : net'.nodes = Function.update net.nodes n (some p')) {d : δ}
    (hd : g.node d ≠ n) (s : UInt64) : net'.written g.toTopology (dataProtocol g m) d s =
      net.written g.toTopology (dataProtocol g m) d s := by
  unfold Net.written
  rw [hnodes, Function.update_of_ne hd]

theorem disjoint (hmove : Move g m relays net flows n p p' k f) (h : DataInv g m relays net flows)
    (hapart : ∀ d, g.node (g.opposite d) ≠ g.node d)
    (hnodes : net'.nodes = Function.update net.nodes n (some p')) (d : δ) (s : UInt64)
    (hwritten : net'.written g.toTopology (dataProtocol g m) d s ≠ []) :
    net'.written g.toTopology (dataProtocol g m) (g.opposite d) s = [] := by
  have hself : ∀ d, g.node d = n → net'.written g.toTopology (dataProtocol g m) d s =
      p'.sent (g.sessionId d) s := fun d hd => written_eq (by rw [hnodes, hd, Function.update_self]) s
  by_cases hd : g.node d = n
  · rw [hself d hd] at hwritten
    rw [written_of_ne hnodes (hd ▸ hapart d)]
    exact hmove.unused h hd hwritten
  · rw [written_of_ne hnodes hd] at hwritten
    by_cases ho : g.node (g.opposite d) = n
    · by_contra hsent
      rw [hself _ ho] at hsent
      have hnil := hmove.unused h ho hsent
      rw [g.opposite_opposite] at hnil
      exact hwritten hnil
    · rw [written_of_ne hnodes ho]
      exact h.disjoint d s hwritten

/-- A close stays. -/
theorem close (hmove : Move g m relays net flows n p p' k f)
    (hnodes : net'.nodes = Function.update net.nodes n (some p')) {d : δ} {s : UInt64}
    (hclose : net.close g.toTopology (dataProtocol g m) d s ≠ none) :
    net'.close g.toTopology (dataProtocol g m) d s =
      net.close g.toTopology (dataProtocol g m) d s := by
  by_cases hd : g.node (g.opposite d) = n
  · subst hd
    obtain ⟨more, hmore⟩ := hmove.extend.closes (g.sessionId (g.opposite d)) s
    rw [close_eq (by rw [hnodes, Function.update_self])]
    rw [close_eq hmove.before] at hclose ⊢
    rw [← hmore]
    cases hcloses : p.closes (g.sessionId (g.opposite d)) s with
    | nil =>
      rw [hcloses] at hclose
      exact absurd rfl hclose
    | cons reset rest => rfl
  · unfold Net.close
    rw [hnodes, Function.update_of_ne hd]

variable [DecidableEq δ]

/-- The flow of a publisher moves. -/
theorem own_inv {track key : UInt64} (hmove : Move g m relays net flows n p p' (.own track key) f)
    (h : DataInv g m relays net flows) (hapart : ∀ d, g.node (g.opposite d) ≠ g.node d) :
    DataInv g m relays (net.set n (some p')) (update₂ flows n (.own track key) (some f)) := by
  have hpeer : ∀ n' k, update₂ flows n (.own track key) (some f) n' (.peer k) = flows n' (.peer k) :=
    fun n' k => update₂_of_ne _ _ (by simp)
  have hreceived := h.reads.received_set hmove.appends
  have hcloses : ∀ d s, net.close g.toTopology (dataProtocol g m) d s ≠ none →
      (net.set n (some p')).close g.toTopology (dataProtocol g m) d s =
        net.close g.toTopology (dataProtocol g m) d s := fun d s => hmove.close rfl
  refine ⟨hmove.node h rfl, h.reads.set hmove.appends, fun d s => ?_, fun d s f₀ snsId hf₀ => ?_,
    fun d s hended => ?_, fun d s => hmove.disjoint h hapart rfl d s,
    fun d snsId s f₀ hf₀ => ?_, hmove.sourced h ?_⟩
  · rw [hreceived]
    simp only [hpeer]
    exact h.received d s
  · rw [hpeer] at hf₀
    rw [h.ended d s f₀ snsId hf₀]
    show _ = if net.ended d s then _ else _
    by_cases hended : net.ended d s = true
    · rw [if_pos hended, if_pos hended, hcloses d s (h.closes d s hended).1]
    · rw [if_neg hended, if_neg hended]
  · obtain ⟨hclose, hne⟩ := h.closes d s hended
    rw [hreceived, hcloses d s hclose]
    exact ⟨hclose, hne⟩
  · rw [hpeer] at hf₀
    exact hmove.hops_of_hops (h.hops d snsId s f₀ hf₀)
  · exact ⟨n, track, key, f, update₂_self .., .refl f⟩

/-- The flow of a stream moves, whose data or whose close have come in. -/
theorem peer_inv {d : δ} {snsId : SubscribeNodeSetId} {s : UInt64}
    (hmove : Move g m relays net flows (g.node d) p p' (.peer ⟨g.sessionId d, snsId, s⟩) f)
    (h : DataInv g m relays net flows) (hapart : ∀ d, g.node (g.opposite d) ≠ g.node d)
    (hnodes : net'.nodes = Function.update net.nodes (g.node d) (some p'))
    (hreads : net'.Reads g.toTopology (dataProtocol g m))
    (hsns : f.header.snsId = snsId)
    (hreceived : net'.received g.toTopology (dataProtocol g m) d s = f.bytes snsId)
    (hothers : ∀ d' s', ¬(d' = d ∧ s' = s) →
      net'.received g.toTopology (dataProtocol g m) d' s' =
          net.received g.toTopology (dataProtocol g m) d' s' ∧
        net'.ended d' s' = net.ended d' s')
    (hclosed : f.closed =
      if net'.ended d s then net'.close g.toTopology (dataProtocol g m) d s else none)
    (hclose : net'.ended d s = true → net'.close g.toTopology (dataProtocol g m) d s ≠ none)
    (hhops : Hops g flows d s f) :
    DataInv g m relays net'
      (update₂ flows (g.node d) (.peer ⟨g.sessionId d, snsId, s⟩) (some f)) := by
  have hother : ∀ d' s' snsId', ¬(d' = d ∧ s' = s) →
      update₂ flows (g.node d) (.peer ⟨g.sessionId d, snsId, s⟩) (some f) (g.node d')
        (.peer ⟨g.sessionId d', snsId', s'⟩) =
          flows (g.node d') (.peer ⟨g.sessionId d', snsId', s'⟩) := by
    intro d' s' snsId' hne
    refine update₂_of_ne _ _ ?_
    rintro ⟨hnode, hkey⟩
    obtain ⟨hsession, -, hs⟩ := StreamKey.mk.inj (FlowKey.peer.inj hkey)
    exact hne ⟨g.sessionId_inj d' d hnode hsession, hs⟩
  have hbytes : f.bytes snsId ≠ [] := by
    intro hnil
    have hlength := length_bytes (hmove.refines.continues.newStream _ f (Function.update_self ..))
      snsId
    rw [hnil, List.length_nil] at hlength
    omega
  have hself : Sourced flows f := by
    obtain ⟨k₀, h₀, hflow, -, hcarries⟩ := hhops
    obtain ⟨o, track, key, h₁, hown, hcarries₁⟩ := h.sourced _ k₀ h₀ hflow
    exact ⟨o, track, key, h₁, hown, hcarries.trans hcarries₁⟩
  -- A stream has the flow of one id only.
  have honly : ∀ snsId' f₀, update₂ flows (g.node d) (.peer ⟨g.sessionId d, snsId, s⟩) (some f)
      (g.node d) (.peer ⟨g.sessionId d, snsId', s⟩) = some f₀ → f₀ = f := by
    intro snsId' f₀ hf₀
    obtain ⟨q, -, hrefines⟩ := hmove.node h hnodes (g.node d)
    obtain ⟨hctx₀, hsns₀⟩ := hrefines.ctx_of_flow hf₀
    have hctx := (hrefines.ctx_of_flow (k := ⟨g.sessionId d, snsId, s⟩) (f := f)
      (update₂_self ..)).1
    have hheader : f₀.header = f.header := Option.some.inj (hctx₀.symm.trans hctx)
    have hid : snsId' = snsId := by
      rw [← hsns, ← hheader]
      exact hsns₀.symm
    rw [hid, update₂_self, Option.some.injEq] at hf₀
    exact hf₀.symm
  refine ⟨hmove.node h hnodes, hreads, fun d' s' => ?_, fun d' s' f₀ snsId' hf₀ => ?_,
    fun d' s' hended => ?_, hmove.disjoint h hapart hnodes, fun d' snsId' s' f₀ hf₀ => ?_,
    hmove.sourced h (hmove.sourced_of_sourced hself)⟩
  · by_cases hds : d' = d ∧ s' = s
    · obtain ⟨rfl, rfl⟩ := hds
      exact .inr ⟨f, by rw [hsns, update₂_self], by rw [hreceived, hsns]⟩
    · rw [(hothers d' s' hds).1]
      simp only [hother d' s' _ hds]
      exact h.received d' s'
  · by_cases hds : d' = d ∧ s' = s
    · obtain ⟨rfl, rfl⟩ := hds
      rw [honly snsId' f₀ hf₀]
      exact hclosed
    · rw [hother d' s' _ hds] at hf₀
      rw [h.ended d' s' f₀ snsId' hf₀, (hothers d' s' hds).2]
      by_cases hended : net.ended d' s' = true
      · rw [if_pos hended, if_pos hended, hmove.close hnodes (h.closes d' s' hended).1]
      · rw [if_neg hended, if_neg hended]
  · by_cases hds : d' = d ∧ s' = s
    · obtain ⟨rfl, rfl⟩ := hds
      exact ⟨hclose hended, by rw [hreceived]; exact hbytes⟩
    · rw [(hothers d' s' hds).2] at hended
      obtain ⟨hclose', hne⟩ := h.closes d' s' hended
      rw [(hothers d' s' hds).1, hmove.close hnodes hclose']
      exact ⟨hclose', hne⟩
  · by_cases hds : d' = d ∧ s' = s
    · obtain ⟨rfl, rfl⟩ := hds
      rw [honly snsId' f₀ hf₀]
      exact hmove.hops_of_hops hhops
    · rw [hother d' s' _ hds] at hf₀
      exact hmove.hops_of_hops (h.hops d' snsId' s' f₀ hf₀)

end Move

end Move

end Laps.Multicast

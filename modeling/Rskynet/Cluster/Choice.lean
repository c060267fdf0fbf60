import Rskynet.Cluster.Pair

/-!
# How a node chooses between two connections

A node decides from the hellos it has heard: it uses the connection of the smaller node as soon as
that one's hello is there, and until then the other one.

* `tracks_hello`, `tracks_closed` — **PROVED**: a node goes on tracking what it has heard with a
  hello and with a close.
-/

namespace Rskynet.Cluster

open Function (update update_of_ne update_self)
open List Option

variable {e₁ e₂ : End}

namespace Pair

variable (p : Pair)

theorem small_lt : (p.id p.small).get < (p.id p.small.other).get := by
  unfold small
  split
  · assumption
  · have hne : (p.id .left).get ≠ (p.id .right).get := fun heq => p.distinct (NodeId.ext_get heq)
    show (p.id .right).get < (p.id .left).get
    omega

theorem id_ne (x : Side) : p.id x.other ≠ p.id x := by
  cases x with
  | left => exact p.distinct.symm
  | right => exact p.distinct

theorem sock_other_ne (x c : Side) : p.sock x c.other ≠ p.sock x c := by
  cases c with
  | left => exact (p.sock_ne x).symm
  | right => exact p.sock_ne x

theorem greeting_ne_nil (x : Side) : p.greeting x ≠ [] := by
  intro hnil
  have h := p.greets x x
  rw [hnil] at h
  simp only [frame] at h
  split at h
  · cases h
  · injection h with h
    cases h

/-! ### A hello on the wire -/

theorem drain_greeting (x : Side) :
    drain (p.config x).codec (p.config x).maxFrameLen (p.greeting x.other) =
      (.ok [hello (p.config x.other)], []) := by
  have hnext := next_of_frame (p.config x).codec (p.greets x.other x) []
  rw [append_nil] at hnext
  rw [drain, Incremental.Parser.drain_item hnext, Incremental.Parser.drain_more rfl]

theorem drain_part (x : Side) {part rest : Bytes} (h : part ++ rest = p.greeting x.other)
    (hrest : rest ≠ []) :
    drain (p.config x).codec (p.config x).maxFrameLen part = (.ok [], part) := by
  have hnext := next_of_frame (p.config x).codec (p.greets x.other x) []
  rw [append_nil, ← h] at hnext
  rw [drain, Incremental.Parser.drain_more (Incremental.Parser.next_of_part hnext hrest)]

theorem onEnvelope_hello (x : Side) (socket : SocketId) (s : Server) :
    onEnvelope (p.config x) socket (hello (p.config x.other)) s =
      (acceptHello (p.config x) socket (p.id x.other) s, none) := by
  have hid : NodeId.new (hello (p.config x.other)).sourceNode = some (p.id x.other) :=
    NodeId.new_get _
  have hkind : Kind.tryFrom (hello (p.config x.other)).kind = some .hello := rfl
  have hversion : ¬ (hello (p.config x.other)).version ≠ protocolVersion := not_not_intro rfl
  simp only [onEnvelope, hid, hkind, if_neg hversion]

/-! ### What a node's tables say -/

abbrev heardAll (x : Side) (e : End) : Prop := e.heard = p.greeting x.other

def peer (x c : Side) (e : End) : Peer where
  node := if p.heardAll x e then some (p.id x.other) else none
  expected := if c = x then some (p.id x.other) else none
  buffer := if p.heardAll x e then [] else e.heard

def preferred (x : Side) (e : Side → End) : Option SocketId :=
  if p.heardAll x (e p.small) then some (p.sock x p.small)
  else if p.heardAll x (e p.small.other) ∧ (e p.small.other).told = false then
    some (p.sock x p.small.other)
  else none

/-- Where a connection stands at a node: not there yet, closed, in the table, or taken out of the
table in favour of the other one. -/
inductive Stand (x c : Side) (e : End) (entry : Option Peer) (shut : List SocketId) : Prop where
  | absent (live : e.live = false) (told : e.told = false) (heard : e.heard = [])
      (none : entry = none)
  | gone (live : e.live = true) (told : e.told = true) (none : entry = none)
  | known (live : e.live = true) (told : e.told = false) (some : entry = some (p.peer x c e))
  | replaced (live : e.live = true) (told : e.told = false) (none : entry = none)
      (mem : p.sock x c ∈ shut)

/-- **What a node's tables say** about the other node: its connections stand where they should, it
uses the preferred one, and only the other one has been closed or shut down. -/
structure Tracks (x : Side) (server : Server) (e : Side → End) (shut : List SocketId) : Prop where
  stands : ∀ c, p.Stand x c (e c) (server.peers.lookup (p.sock x c)) shut
  node : server.nodes.lookup (p.id x.other) = p.preferred x e
  kept : (e p.small).told = false
  spared : p.sock x p.small ∉ shut
  spent : p.sock x p.small.other ∈ shut →
    p.heardAll x (e p.small) ∧ p.heardAll x (e p.small.other)

variable {p} {x c : Side} {server server' : Server} {e e' : Side → End} {shut shut' : List SocketId}

theorem peer_congr (h : e₁.heard = e₂.heard) : p.peer x c e₁ = p.peer x c e₂ := by
  simp only [peer, heardAll, h]

theorem preferred_congr (hheard : ∀ d, (e' d).heard = (e d).heard)
    (htold : ∀ d, (e' d).told = (e d).told) : p.preferred x e' = p.preferred x e := by
  simp only [preferred, heardAll, hheard, htold]

theorem not_heardAll_nil (h : e₁.heard = []) : ¬ p.heardAll x e₁ := by
  intro hall
  exact p.greeting_ne_nil x.other (hall.symm.trans h)

theorem Stand.mono {entry : Option Peer} (h : p.Stand x c e₁ entry shut) (hsub : shut ⊆ shut') :
    p.Stand x c e₁ entry shut' := by
  cases h with
  | absent hlive htold hheard hnone => exact .absent hlive htold hheard hnone
  | gone hlive htold hnone => exact .gone hlive htold hnone
  | known hlive htold hsome => exact .known hlive htold hsome
  | replaced hlive htold hnone hmem => exact .replaced hlive htold hnone (hsub hmem)

theorem Stand.congr {entry : Option Peer} (h : p.Stand x c e₁ entry shut)
    (hlive : e₂.live = e₁.live) (htold : e₂.told = e₁.told) (hheard : e₂.heard = e₁.heard) :
    p.Stand x c e₂ entry shut := by
  cases h with
  | absent h₁ h₂ h₃ h₄ => exact .absent (hlive.trans h₁) (htold.trans h₂) (hheard.trans h₃) h₄
  | gone h₁ h₂ h₃ => exact .gone (hlive.trans h₁) (htold.trans h₂) h₃
  | known h₁ h₂ h₃ =>
    exact .known (hlive.trans h₁) (htold.trans h₂) (h₃.trans (congrArg some (peer_congr hheard.symm)))
  | replaced h₁ h₂ h₃ h₄ => exact .replaced (hlive.trans h₁) (htold.trans h₂) h₃ h₄

theorem Tracks.congr (h : p.Tracks x server e shut) (hpeers : server'.peers = server.peers)
    (hnodes : server'.nodes = server.nodes) (hlive : ∀ d, (e' d).live = (e d).live)
    (htold : ∀ d, (e' d).told = (e d).told) (hheard : ∀ d, (e' d).heard = (e d).heard) :
    p.Tracks x server' e' shut where
  stands d := by
    rw [hpeers]
    exact (h.stands d).congr (hlive d) (htold d) (hheard d)
  node := by
    rw [hnodes, preferred_congr hheard htold]
    exact h.node
  kept := (htold _).trans h.kept
  spared := h.spared
  spent hmem := ⟨(hheard _).trans (h.spent hmem).1, (hheard _).trans (h.spent hmem).2⟩

theorem stands_update (hc : p.Stand x c e₁ (server'.peers.lookup (p.sock x c)) shut')
    (hother : server'.peers.lookup (p.sock x c.other) = server.peers.lookup (p.sock x c.other))
    (h : p.Tracks x server e shut) (hsub : shut ⊆ shut') (d : Side) :
    p.Stand x d (update e c e₁ d) (server'.peers.lookup (p.sock x d)) shut' := by
  obtain rfl | rfl := c.eq_or d
  · rw [update_self]
    exact hc
  · rw [update_of_ne c.other_ne, hother]
    exact (h.stands _).mono hsub

theorem lookup_insert_other (peers : AList fun _ : SocketId => Peer) (pr : Peer) :
    (peers.insert (p.sock x c) pr).lookup (p.sock x c.other) = peers.lookup (p.sock x c.other) :=
  AList.lookup_insert_ne (p.sock_other_ne x c)

theorem update_heard (h : e₁.heard = (e c).heard) (d : Side) :
    (update e c e₁ d).heard = (e d).heard := by
  obtain rfl | rfl := c.eq_or d
  · rw [update_self, h]
  · rw [update_of_ne c.other_ne]

theorem update_told (h : e₁.told = (e c).told) (d : Side) :
    (update e c e₁ d).told = (e d).told := by
  obtain rfl | rfl := c.eq_or d
  · rw [update_self, h]
  · rw [update_of_ne c.other_ne]

/-- **A new connection** is in the table and has heard nothing. -/
theorem tracks_open (h : p.Tracks x server e shut) (hlive : (e c).live = false)
    (hlive₁ : e₁.live = true) (htold₁ : e₁.told = (e c).told) (hheard₁ : e₁.heard = (e c).heard)
    (hpeers : server'.peers = server.peers.insert (p.sock x c)
      { node := none, expected := if c = x then some (p.id x.other) else none, buffer := [] })
    (hnodes : server'.nodes = server.nodes) :
    p.Tracks x server' (update e c e₁) shut := by
  cases h.stands c with
  | gone hl | known hl | replaced hl => rw [hl] at hlive; cases hlive
  | absent _ htold hheard _ =>
    have hnil : e₁.heard = [] := hheard₁.trans hheard
    have hsame := update_heard hheard₁
    have hquiet := update_told htold₁
    refine ⟨stands_update (.known hlive₁ (htold₁.trans htold) ?_) ?_ h (List.Subset.refl _), ?_,
      (hquiet _).trans h.kept, h.spared, ?_⟩
    · rw [hpeers, AList.lookup_insert, peer, if_neg (not_heardAll_nil hnil),
        if_neg (not_heardAll_nil hnil), hnil]
    · rw [hpeers]
      exact lookup_insert_other _ _
    · rw [hnodes, h.node]
      exact (preferred_congr hsame hquiet).symm
    · intro hmem
      exact ⟨(hsame _).trans (h.spent hmem).1, (hsame _).trans (h.spent hmem).2⟩

/-- **A part of the hello** goes into the buffer. -/
theorem tracks_part (h : p.Tracks x server e shut) (hlive : (e c).live = true)
    (htold : (e c).told = false) (hnot : ¬ p.heardAll x (e c)) (hlive₁ : e₁.live = (e c).live)
    (htold₁ : e₁.told = (e c).told) (hnot₁ : ¬ p.heardAll x e₁)
    (hpeers : server'.peers = server.peers.insert (p.sock x c) (p.peer x c e₁))
    (hnodes : server'.nodes = server.nodes) :
    p.Tracks x server' (update e c e₁) shut := by
  have hall : ∀ d, p.heardAll x (update e c e₁ d) ↔ p.heardAll x (e d) := by
    intro d
    obtain rfl | rfl := c.eq_or d
    · rw [update_self]
      exact iff_of_false hnot₁ hnot
    · rw [update_of_ne c.other_ne]
  refine ⟨stands_update (.known (hlive₁.trans hlive) (htold₁.trans htold) ?_) ?_ h
    (List.Subset.refl _), ?_, (update_told htold₁ _).trans h.kept, h.spared, ?_⟩
  · rw [hpeers, AList.lookup_insert]
  · rw [hpeers]
    exact lookup_insert_other _ _
  · rw [hnodes, h.node]
    simp only [preferred, hall, update_told htold₁]
  · intro hmem
    rw [hall, hall]
    exact h.spent hmem

/-! ### The hello -/

theorem initiator_peer (e₁ : End) :
    initiator (p.config x) (p.id x.other) (p.peer x c e₁).expected = p.id c := by
  obtain rfl | rfl := x.eq_or c
  · rw [peer, if_pos rfl]
    rfl
  · rw [peer, if_neg x.other_ne]
    rfl

theorem Tracks.entry (h : p.Tracks x server e shut) (hlive : (e c).live = true)
    (htold : (e c).told = false) (hnot : ¬ p.heardAll x (e c)) :
    server.peers.lookup (p.sock x c) = some (p.peer x c (e c)) := by
  cases h.stands c with
  | absent hl _ _ _ => rw [hl] at hlive; cases hlive
  | gone _ ht _ => rw [ht] at htold; cases htold
  | known _ _ hsome => exact hsome
  | replaced _ _ _ hmem =>
    exfalso
    obtain rfl | rfl := p.small.eq_or c
    · exact h.spared hmem
    · exact hnot (h.spent hmem).2

theorem Tracks.entry_of_heard (h : p.Tracks x server e shut) (hall : p.heardAll x (e c.other))
    (htold : (e c.other).told = false) (hnot : ¬ p.heardAll x (e c)) :
    server.peers.lookup (p.sock x c.other) = some (p.peer x c.other (e c.other)) := by
  cases h.stands c.other with
  | absent _ _ hheard _ => exact absurd hall (not_heardAll_nil hheard)
  | gone _ ht _ => rw [ht] at htold; cases htold
  | known _ _ hsome => exact hsome
  | replaced _ _ _ hmem =>
    exfalso
    obtain hc | hc := p.small.eq_or c
    · rw [hc] at hmem hnot
      exact hnot (h.spent hmem).1
    · rw [hc, Side.other_other] at hmem
      exact h.spared hmem

theorem claim_peer (hnot : ¬ p.heardAll x e₁) (hall : p.heardAll x e₂) :
    Peer.claim { p.peer x c e₁ with buffer := [] } (p.id x.other) = some (p.peer x c e₂) := by
  have hnode : (p.peer x c e₁).node = none := if_neg hnot
  simp only [Peer.claim, hnode, isSome_none, Bool.false_eq_true, if_false]
  simp only [peer, if_pos hall]

/-- **What a hello does**: the connection is claimed and becomes the node's connection, unless there
is one that a smaller node has dialled. -/
theorem acceptHello_eq {s : Server} (hnot : ¬ p.heardAll x e₁) (hall : p.heardAll x e₂)
    (hentry : s.peers.lookup (p.sock x c) = some { p.peer x c e₁ with buffer := [] }) :
    acceptHello (p.config x) (p.sock x c) (p.id x.other) s =
      match s.nodes.lookup (p.id x.other) with
      | none => install (p.sock x c) (p.id x.other) (s.setPeer (p.sock x c) (p.peer x c e₂))
      | some old =>
        let oldInitiator := match (s.setPeer (p.sock x c) (p.peer x c e₂)).peers.lookup old with
          | some oldPeer => initiator (p.config x) (p.id x.other) oldPeer.expected
          | none => p.id x.other
        if oldInitiator.get ≤ (p.id c).get then
          (s.setPeer (p.sock x c) (p.peer x c e₂)).emit (.shutdown (p.sock x c))
        else install (p.sock x c) (p.id x.other) (s.setPeer (p.sock x c) (p.peer x c e₂)) := by
  have hexpected : ¬ (p.peer x c e₁).expected.any (· ≠ p.id x.other) = true := by
    simp only [peer]
    split
    · simp only [ne_eq, any_some, not_true_eq_false, decide_false, Bool.false_eq_true,
        not_false_eq_true]
    · simp only [any_none, Bool.false_eq_true, not_false_eq_true]
  have hother : p.id x.other ≠ (p.config x).nodeId := p.id_ne x
  rw [acceptHello, if_neg hother]
  simp only [hentry, claim_peer hnot hall, if_neg hexpected]
  rw [initiator_peer e₁]
  rfl

/-- **The first hello**: its connection is used. -/
theorem tracks_first (h : p.Tracks x server e shut) (hnone : p.preferred x e = none)
    (hnot : ¬ p.heardAll x (e c)) (hlive : e₂.live = true) (htold : e₂.told = false)
    (hall : p.heardAll x e₂) (hself : server'.peers.lookup (p.sock x c) = some (p.peer x c e₂))
    (hother : server'.peers.lookup (p.sock x c.other) = server.peers.lookup (p.sock x c.other))
    (hnode : server'.nodes.lookup (p.id x.other) = some (p.sock x c)) :
    p.Tracks x server' (update e c e₂) shut := by
  have hunheard : ¬ p.heardAll x (e p.small) := by
    intro hsmall
    rw [preferred, if_pos hsmall] at hnone
    cases hnone
  refine ⟨stands_update (.known hlive htold hself) hother h (List.Subset.refl _), ?_, ?_, h.spared,
    ?_⟩
  · rw [hnode]
    obtain rfl | rfl := p.small.eq_or c
    · rw [preferred, if_pos (by rw [update_self]; exact hall)]
    · rw [preferred, if_neg (by rw [update_of_ne p.small.ne_other]; exact hunheard),
        if_pos (by rw [update_self]; exact ⟨hall, htold⟩)]
  · obtain rfl | rfl := p.small.eq_or c
    · rw [update_self]
      exact htold
    · rw [update_of_ne p.small.ne_other]
      exact h.kept
  · intro hmem
    exact absurd (h.spent hmem).1 hunheard

/-- **The larger node's hello second**: the connection in use stays, and the new one is shut down. -/
theorem tracks_loses (h : p.Tracks x server e shut) (hsmall : p.heardAll x (e p.small))
    (hlive : e₂.live = true) (htold : e₂.told = false) (hall : p.heardAll x e₂)
    (hself : server'.peers.lookup (p.sock x p.small.other) = some (p.peer x p.small.other e₂))
    (hother : server'.peers.lookup (p.sock x p.small) = server.peers.lookup (p.sock x p.small))
    (hnode : server'.nodes = server.nodes) :
    p.Tracks x server' (update e p.small.other e₂)
      (shut ++ [p.sock x p.small.other]) := by
  have hsame : update e p.small.other e₂ p.small = e p.small :=
    update_of_ne p.small.ne_other _ _
  refine ⟨stands_update (.known hlive htold hself) ?_ h (subset_append_left _ _), ?_, ?_, ?_, ?_⟩
  · rw [Side.other_other]
    exact hother
  · rw [hnode, h.node, preferred, if_pos hsmall, preferred, hsame, if_pos hsmall]
  · rw [hsame]
    exact h.kept
  · intro hmem
    obtain hmem | hmem := mem_append.mp hmem
    · exact h.spared hmem
    · exact p.sock_other_ne x p.small (mem_singleton.mp hmem).symm
  · intro _
    rw [hsame, update_self]
    exact ⟨hsmall, hall⟩

/-- **The smaller node's hello second**: it takes the place of the connection in use, which is taken
out of the table and shut down. -/
theorem tracks_wins (h : p.Tracks x server e shut) (hlarge : p.heardAll x (e p.small.other))
    (htold' : (e p.small.other).told = false) (hlive : e₂.live = true) (htold : e₂.told = false)
    (hall : p.heardAll x e₂)
    (hself : server'.peers.lookup (p.sock x p.small) = some (p.peer x p.small e₂))
    (hother : server'.peers.lookup (p.sock x p.small.other) = none)
    (hnode : server'.nodes.lookup (p.id x.other) = some (p.sock x p.small)) :
    p.Tracks x server' (update e p.small e₂) (shut ++ [p.sock x p.small.other]) := by
  have hsame : update e p.small e₂ p.small.other = e p.small.other :=
    update_of_ne p.small.other_ne _ _
  have hmem : p.sock x p.small.other ∈ shut ++ [p.sock x p.small.other] :=
    mem_append_right _ (mem_singleton.mpr rfl)
  refine ⟨?_, ?_, ?_, ?_, ?_⟩
  · intro d
    obtain rfl | rfl := p.small.eq_or d
    · rw [update_self]
      exact .known hlive htold hself
    · rw [hsame]
      have hlive' : (e p.small.other).live = true := by
        cases h.stands p.small.other with
        | absent _ _ hheard _ => exact absurd hlarge (not_heardAll_nil hheard)
        | gone hl | known hl | replaced hl => exact hl
      exact .replaced hlive' htold' hother hmem
  · rw [hnode, preferred, update_self, if_pos hall]
  · rw [update_self]
    exact htold
  · intro hmem
    obtain hmem | hmem := mem_append.mp hmem
    · exact h.spared hmem
    · exact p.sock_other_ne x p.small (mem_singleton.mp hmem).symm
  · intro _
    rw [hsame, update_self]
    exact ⟨hall, hlarge⟩

def Silent (out : List Effect) : Prop := dials out = false ∧ ∀ socket, sentOn socket out = []

theorem silent_nil : Silent [] := ⟨rfl, fun _ => rfl⟩

theorem silent_shutdown (socket : SocketId) : Silent [.shutdown socket] := ⟨rfl, fun _ => rfl⟩

/-- **The whole hello is there**: in every case the node's tables say what they should. -/
theorem tracks_hello (h : p.Tracks x server e shut) (hout : server.out = [])
    (hlive : (e c).live = true) (htold : (e c).told = false) (hnot : ¬ p.heardAll x (e c))
    (hlive₂ : e₂.live = true) (htold₂ : e₂.told = false) (hall : p.heardAll x e₂)
    (hr : acceptHello (p.config x) (p.sock x c) (p.id x.other)
      (server.setPeer (p.sock x c) { p.peer x c (e c) with buffer := [] }) = server') :
    p.Tracks x server' (update e c e₂) (shut ++ cuts server'.out) ∧ Silent server'.out := by
  rw [acceptHello_eq hnot hall (AList.lookup_insert _)] at hr
  have hnode : (server.setPeer (p.sock x c) { p.peer x c (e c) with buffer := [] }).nodes.lookup
      (p.id x.other) = p.preferred x e := h.node
  rw [hnode] at hr
  cases hpreferred : p.preferred x e with
  | none =>
    have hfresh : server.nodes.lookup (p.id x.other) = none := h.node.trans hpreferred
    simp only [hpreferred, install, Server.setPeer, hfresh, Server.setNode] at hr
    subst hr
    refine ⟨?_, ?_⟩
    · simp only [hout, cuts, filterMap_nil, append_nil]
      refine tracks_first h hpreferred hnot hlive₂ htold₂ hall (AList.lookup_insert _) ?_
        (AList.lookup_insert _)
      rw [lookup_insert_other, lookup_insert_other]
    · rw [hout]
      exact silent_nil
  | some old =>
    simp only [hpreferred] at hr
    obtain rfl | rfl := p.small.eq_or c
    · -- the larger node's connection is in use and makes room
      rw [preferred, if_neg hnot] at hpreferred
      split at hpreferred
      · rename_i hlarge
        cases hpreferred
        have hused : server.nodes.lookup (p.id x.other) = some (p.sock x p.small.other) := by
          rw [h.node, preferred, if_neg hnot, if_pos hlarge]
        have holder := h.entry_of_heard hlarge.1 hlarge.2 hnot
        have hsmaller : ¬ (p.id p.small.other).get ≤ (p.id p.small).get :=
          Nat.not_le.mpr p.small_lt
        simp only [Server.setPeer, lookup_insert_other, holder, initiator_peer, if_neg hsmaller,
          install, hused, if_neg (p.sock_other_ne x p.small), Server.setNode, Server.dropPeer,
          Server.emit, hout, nil_append] at hr
        subst hr
        refine ⟨tracks_wins h hlarge.1 hlarge.2 hlive₂ htold₂ hall ?_ (AList.lookup_erase _ _)
          (AList.lookup_insert _), silent_shutdown _⟩
        rw [AList.lookup_erase_ne (p.sock_other_ne x p.small).symm, AList.lookup_insert]
      · cases hpreferred
    · -- the smaller node's connection is in use and stays
      rw [preferred] at hpreferred
      split at hpreferred
      · rename_i hsmall
        cases hpreferred
        have hback : p.small.other.other = p.small := p.small.other_other
        have holder := h.entry_of_heard (c := p.small.other) (by rw [hback]; exact hsmall)
          (by rw [hback]; exact h.kept) hnot
        rw [hback] at holder
        have hlookup : ∀ peers : AList fun _ : SocketId => Peer, ∀ pr : Peer,
            (peers.insert (p.sock x p.small.other) pr).lookup (p.sock x p.small) =
              peers.lookup (p.sock x p.small) :=
          fun _ _ => AList.lookup_insert_ne (p.sock_other_ne x p.small).symm
        simp only [Server.setPeer, hlookup, holder, initiator_peer, if_pos (Nat.le_of_lt p.small_lt),
          Server.emit, hout, nil_append] at hr
        subst hr
        refine ⟨tracks_loses h hsmall hlive₂ htold₂ hall (AList.lookup_insert _) ?_ rfl,
          silent_shutdown _⟩
        rw [hlookup, hlookup]
      · rw [if_neg (fun hlarge => hnot hlarge.1)] at hpreferred
        cases hpreferred

/-! ### The close -/

/-- What a service does aside from its connections: their tables stay, and nothing is dialled, sent
or shut down. -/
structure Aside (s s' : Server) : Prop where
  peers : s'.peers = s.peers
  nodes : s'.nodes = s.nodes
  dials : dials s'.out = dials s.out
  sent : ∀ socket, sentOn socket s'.out = sentOn socket s.out
  cuts : cuts s'.out = cuts s.out

variable (node : NodeId) (s : Server)

theorem Aside.refl : Aside s s := ⟨rfl, rfl, rfl, fun _ => rfl, rfl⟩

theorem Aside.trans {s s' s'' : Server} (h : Aside s s') (h' : Aside s' s'') : Aside s s'' :=
  ⟨h'.peers.trans h.peers, h'.nodes.trans h.nodes, h'.dials.trans h.dials,
    fun socket => (h'.sent socket).trans (h.sent socket), h'.cuts.trans h.cuts⟩

theorem aside_emit {effect : Effect} (hdials : Cluster.dials [effect] = false)
    (hsent : ∀ socket, sentOn socket [effect] = []) (hcuts : Cluster.cuts [effect] = []) :
    Aside s (s.emit effect) := by
  refine ⟨rfl, rfl, ?_, fun socket => ?_, ?_⟩
  · exact any_append.trans ((congrArg _ hdials).trans (Bool.or_false _))
  · rw [Server.emit, sentOn, filterMap_append, flatten_append]
    exact (congrArg _ (hsent socket)).trans (append_nil _)
  · exact filterMap_append.trans ((congrArg _ hcuts).trans (append_nil _))

theorem aside_failPending : Aside s (failPending node s) := by
  unfold failPending
  generalize s.pending.entries.filter (fun entry => entry.2.node = node) = lost
  -- one answer after another, each aside from the connections
  induction lost generalizing s with
  | nil => exact Aside.refl s
  | cons entry lost ih =>
    have hdrop : Aside s (s.dropPending entry.1) := ⟨rfl, rfl, rfl, fun _ => rfl, rfl⟩
    exact (hdrop.trans (aside_emit _ rfl (fun _ => rfl) rfl)).trans (ih _)

theorem aside_redial (config : Config) (node : NodeId) (s : Server) :
    Aside s (redial config node s) := by
  unfold redial
  split
  · exact Aside.refl s
  · exact aside_emit _ rfl (fun _ => rfl) rfl

/-- **What a close does** to the tables: the connection goes, and the node it was used for is no
longer connected. -/
theorem disconnected_tables (config : Config) (socket : SocketId) {pr : Peer}
    (hentry : server.peers.lookup socket = some pr) :
    Aside { server.dropPeer socket with
        nodes := match pr.reconnectNode with
          | none => server.nodes
          | some node =>
            if server.nodes.lookup node = some socket then server.nodes.erase node
            else server.nodes }
      (disconnected config socket server) := by
  rw [disconnected]
  simp only [hentry]
  cases hnode : pr.reconnectNode with
  | none =>
    have hlost : lostNode socket pr (server.dropPeer socket) = none := by rw [lostNode, hnode]; rfl
    simp only [hlost]
    exact Aside.refl _
  | some node =>
    have hlost : lostNode socket pr (server.dropPeer socket) =
        if (server.nodes.lookup node).all (· = socket) then some node else none := by
      rw [lostNode, hnode, filter_some]
      rfl
    cases hused : server.nodes.lookup node with
    | none =>
      rw [hused, all_none, if_pos rfl] at hlost
      simp only [hlost]
      simp only [Server.dropPeer, hused, reduceCtorEq, if_false]
      exact (aside_failPending _ _).trans (aside_redial _ _ _)
    | some active =>
      by_cases hsame : active = socket
      · rw [hused, all_some, if_pos (decide_eq_true hsame)] at hlost
        simp only [hlost]
        simp only [Server.dropPeer, hused, hsame, if_true]
        exact (aside_failPending _ _).trans (aside_redial _ _ _)
      · rw [hused, all_some, if_neg (by rw [decide_eq_true_eq]; exact hsame)] at hlost
        have hother : ¬ some active = some socket := fun heq => hsame (some.inj heq)
        simp only [hlost, hused, if_neg hother]
        exact Aside.refl _

theorem preferred_closed (hclosed : (e' p.small.other).told = true)
    (hsame : (e' p.small).heard = (e p.small).heard) :
    p.preferred x e' = if p.heardAll x (e p.small) then some (p.sock x p.small) else none := by
  simp only [preferred, heardAll, hclosed, hsame, Bool.true_eq_false, and_false, if_false]

theorem reconnectNode_peer (e₁ : End) : (p.peer x c e₁).reconnectNode = some (p.id x.other) ∨
    (p.peer x c e₁).reconnectNode = none ∧ ¬ p.heardAll x e₁ := by
  simp only [Peer.reconnectNode, peer]
  by_cases hdialled : c = x
  · rw [if_pos hdialled]
    exact .inl rfl
  · rw [if_neg hdialled]
    by_cases hall : p.heardAll x e₁
    · rw [if_pos hall]
      exact .inl rfl
    · rw [if_neg hall]
      exact .inr ⟨rfl, hall⟩

/-- **A close** of the larger node's connection. -/
theorem tracks_closed (h : p.Tracks x server e shut) (hout : server.out = [])
    (hlive : (e p.small.other).live = true) (htold : (e p.small.other).told = false)
    (hlive₂ : e₂.live = true) (htold₂ : e₂.told = true)
    (hheard : e₂.heard = (e p.small.other).heard)
    (hr : disconnected (p.config x) (p.sock x p.small.other) server = server') :
    p.Tracks x server' (update e p.small.other e₂) (shut ++ cuts server'.out) ∧
      Silent server'.out := by
  have hsmall : update e p.small.other e₂ p.small = e p.small :=
    update_of_ne p.small.ne_other _ _
  have hclosed : (update e p.small.other e₂ p.small.other).told = true := by
    rw [update_self]
    exact htold₂
  have hpreferred := preferred_closed (x := x) hclosed (congrArg End.heard hsmall)
  have hspent : p.sock x p.small.other ∈ shut → p.heardAll x
      (update e p.small.other e₂ p.small) ∧
      p.heardAll x (update e p.small.other e₂ p.small.other) := by
    intro hmem
    rw [hsmall, update_self]
    exact ⟨(h.spent hmem).1, hheard.trans (h.spent hmem).2⟩
  cases h.stands p.small.other with
  | absent hl _ _ _ => rw [hl] at hlive; cases hlive
  | gone _ ht _ => rw [ht] at htold; cases htold
  | replaced _ _ hnone hmem =>
    -- the entry is gone already, so the close is ignored
    have hsame : server' = server := by
      rw [← hr, disconnected, hnone]
    subst hsame
    rw [hout]
    refine ⟨?_, silent_nil⟩
    rw [show cuts [] = [] from rfl, append_nil]
    refine ⟨stands_update (.gone hlive₂ htold₂ hnone) rfl h (List.Subset.refl _), ?_, ?_, h.spared,
      hspent⟩
    · rw [hpreferred, h.node, preferred, if_pos (h.spent hmem).1, if_pos (h.spent hmem).1]
    · rw [hsmall]
      exact h.kept
  | known _ _ hsome =>
    have haside := disconnected_tables (p.config x) (p.sock x p.small.other) hsome
    rw [hr] at haside
    have hcuts : cuts server'.out = [] := by
      rw [haside.cuts]
      show cuts server.out = []
      rw [hout]
      rfl
    have hsilent : Silent server'.out := by
      refine ⟨haside.dials.trans ?_, fun socket => (haside.sent socket).trans ?_⟩
      · show dials server.out = false
        rw [hout]
        rfl
      · show sentOn socket server.out = []
        rw [hout]
        rfl
    rw [hcuts, append_nil]
    refine ⟨⟨stands_update (.gone hlive₂ htold₂ ?_) ?_ h (List.Subset.refl _), ?_, ?_, h.spared,
      hspent⟩, hsilent⟩
    · rw [haside.peers]
      exact AList.lookup_erase _ _
    · rw [haside.peers, Side.other_other]
      exact AList.lookup_erase_ne (p.sock_other_ne x p.small).symm
    · rw [hpreferred, haside.nodes]
      have hnode := h.node
      obtain hlost | ⟨hnone, hunheard⟩ := reconnectNode_peer (p := p) (x := x)
        (c := p.small.other) (e p.small.other)
      · simp only [hlost]
        by_cases hall : p.heardAll x (e p.small)
        · rw [preferred, if_pos hall] at hnode
          have hother : ¬ some (p.sock x p.small) = some (p.sock x p.small.other) :=
            fun heq => p.sock_other_ne x p.small (some.inj heq).symm
          rw [hnode, if_neg hother, if_pos hall, hnode]
        · split
          · exact AList.lookup_erase _ _
          · rename_i hunused
            rw [preferred, if_neg hall] at hnode
            split at hnode
            · exact absurd hnode hunused
            · exact hnode
      · simp only [hnone]
        rw [hnode, preferred]
        rw [if_neg (fun hlarge : p.heardAll x (e p.small.other) ∧ _ => hunheard hlarge.1)]
    · rw [hsmall]
      exact h.kept

end Pair

end Rskynet.Cluster

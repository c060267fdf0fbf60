import Rskynet.Http.Shapes

/-!
# What stays of an exchange of the HTTP client

The handlers that touch one exchange leave it on its connection. Once the connection of an exchange
has been given back, nothing gives it back again.

* `next_cases` — **PROVED**: `next_body` keeps the connection or takes it to give it back.
-/

namespace Rskynet.Http

variable {U : Ureq}
variable {e e' : Exchange U}

/-! ### The end of an exchange -/

def Exchange.over (e : Exchange U) : Bool :=
  match e.proto with
  | none => true
  | some .done => true
  | _ => false

/-- The connection of the exchange has been given back, or will never be. -/
def Exchange.spent (e : Exchange U) : Prop := e.over = true ∧ e.reusable = none

def Exchange.tidy (e : Exchange U) : Prop := e.reusable.isSome = true → e.over = true

/-- **What a handler that touches an exchange leaves of it.** -/
structure Keeps (e e' : Exchange U) : Prop where
  transport : e'.transport = e.transport
  origin : e'.origin = e.origin
  spent : e.spent → e'.spent
  tidy : e.tidy → e'.tidy

theorem Keeps.refl (e : Exchange U) : Keeps e e := ⟨rfl, rfl, fun h => h, fun h => h⟩

theorem Keeps.trans {e'' : Exchange U} (h : Keeps e e') (h' : Keeps e' e'') : Keeps e e'' :=
  ⟨h'.transport.trans h.transport, h'.origin.trans h.origin, fun hs => h'.spent (h.spent hs),
    fun ht => h'.tidy (h.tidy ht)⟩

theorem Keeps.of_same (htransport : e'.transport = e.transport) (horigin : e'.origin = e.origin)
    (hproto : e'.proto = e.proto) (hreusable : e'.reusable = e.reusable) : Keeps e e' := by
  refine ⟨htransport, horigin, ?_, ?_⟩
  · unfold Exchange.spent Exchange.over
    rw [hproto, hreusable]
    exact fun h => h
  · unfold Exchange.tidy Exchange.over
    rw [hproto, hreusable]
    exact fun h => h

theorem Keeps.of_going (htransport : e'.transport = e.transport) (horigin : e'.origin = e.origin)
    (hgoing : e.over = false) (hreusable : e'.reusable = e.reusable) : Keeps e e' := by
  refine ⟨htransport, horigin, ?_, ?_⟩
  · intro hspent
    exact absurd (hspent.1.symm.trans hgoing) (by decide)
  · intro htidy hsome
    rw [hreusable] at hsome
    exact absurd ((htidy hsome).symm.trans hgoing) (by decide)

theorem Keeps.of_over (htransport : e'.transport = e.transport) (horigin : e'.origin = e.origin)
    (hgoing : e.over = false) (hover : e'.over = true) :
    Keeps e e' := by
  refine ⟨htransport, horigin, ?_, fun _ _ => hover⟩
  intro hspent
  exact absurd (hspent.1.symm.trans hgoing) (by decide)

theorem Keeps.of_lost (htransport : e'.transport = e.transport) (horigin : e'.origin = e.origin)
    (hover : e'.over = true) (hreusable : e'.reusable = e.reusable) : Keeps e e' := by
  refine ⟨htransport, horigin, ?_, fun _ _ => hover⟩
  intro hspent
  exact ⟨hover, hreusable.trans hspent.2⟩

theorem over_of_proto {proto : Proto U} (h : e.proto = some proto) (hgoing : proto ≠ .done) :
    e.over = false := by
  unfold Exchange.over
  rw [h]
  cases proto with
  | done => exact absurd rfl hgoing
  | sendBody | await100 | recvResponse | recvBody => rfl

/-! ### Handlers that touch one exchange -/

theorem Requested.keeps (h : Requested e e') : Keeps e e' := by
  cases h with
  | idle => exact .of_same rfl rfl rfl rfl
  | moves proto _ _ _ _ hproto hbefore =>
    refine .of_going rfl rfl (over_of_proto hproto ?_) rfl
    rintro rfl
    cases hbefore
  | fails => exact .of_lost rfl rfl rfl rfl

theorem keeps_stopWaiting100 (e : Exchange U) : Keeps e e.stopWaiting100.1 := by
  rcases stopWaiting100_cases e with hmoved | ⟨-, hlost⟩
  · exact hmoved.keeps
  · rw [hlost]
    exact .of_lost rfl rfl rfl rfl

theorem keeps_takeResponse (e : Exchange U) (pending : Pending) :
    Keeps e (e.takeResponse pending).1 := by
  obtain ⟨_, _, _, hshape⟩ := takeResponse_shape e pending
  rw [hshape]
  exact .of_same rfl rfl rfl rfl

theorem keeps_expire (e : Exchange U) (id session : ℕ) (body : Bool) :
    Keeps e (e.expire id session body).1 := by
  obtain ⟨_, _, hshape, -⟩ := expire_shape e id session body
  rw [hshape]
  exact .of_same rfl rfl rfl rfl

theorem keeps_closed (h : endsWithClose e = true) :
    Keeps e { e with bodyEnded := true, proto := some .done, reusable := some false } := by
  refine .of_over rfl rfl ?_ rfl
  unfold endsWithClose at h
  split at h
  · rename_i call hproto
    exact over_of_proto hproto nofun
  · cases h

theorem Onward.keeps {e₁ : Exchange U} (h : Onward e₁ e') (hgoing : e.over = false)
    (htransport : e₁.transport = e.transport) (horigin : e₁.origin = e.origin)
    (hreusable : e₁.reusable = e.reusable) : Keeps e e' := by
  cases h with
  | body => exact .of_going htransport horigin hgoing hreusable
  | finished => exact .of_over htransport horigin hgoing rfl

/-- **One turn of the loop.** -/
theorem Turns.keeps {id : ℕ} {round : Round U} (h : Turns id e round) :
    Keeps e round.exchange := by
  cases h with
  | idle => exact .refl e
  | waits proto _ _ _ _ hproto hbefore =>
    refine .of_going rfl rfl (over_of_proto hproto ?_) rfl
    rintro rfl
    cases hbefore
  | rejected _ _ _ hproto => exact .of_going rfl rfl (over_of_proto hproto nofun) rfl
  | fails => exact .of_lost rfl rfl rfl rfl
  | parsed _ _ _ _ hproto _ h | taken _ _ _ _ _ hproto _ h =>
    exact h.keeps (over_of_proto hproto nofun) rfl rfl rfl
  | decoded _ _ _ _ _ hproto h hround =>
    have hkeeps : Keeps e _ := h.keeps (over_of_proto hproto nofun) rfl rfl rfl
    rcases hround with rfl | rfl
    · exact hkeeps
    · exact hkeeps

theorem keeps_driveExchange {config : HttpClientConfig} {rounds id : ℕ} {d : Driven U}
    {pause : Option TransportId} (h : driveExchange config rounds id e = some (d, pause)) :
    Keeps e d.exchange := by
  obtain ⟨d', hd', hcloses⟩ := driveExchange_closes h
  have hloop : Keeps e d'.exchange :=
    driveLoop_keeps (fun _ _ ht he => he.trans ht.keeps) (.refl e) hd'
  obtain ⟨_, _, _, _, hshape⟩ := hcloses.shape
  refine hloop.trans ?_
  rw [hshape]
  exact .of_same rfl rfl rfl rfl

/-- **`next_body` and its connection**: it is kept, or it is taken from the exchange to be given
back. -/
theorem next_cases (config : HttpClientConfig) (e : Exchange U) (pending : Pending) :
    ((e.next config pending).cleanup = none ∧ Keeps e (e.next config pending).exchange)
    ∨ ∃ reusable, e.reusable = some reusable
      ∧ (e.next config pending).cleanup = some (e.transport, e.origin, reusable)
      ∧ (e.next config pending).exchange.transport = e.transport
      ∧ (e.next config pending).exchange.origin = e.origin
      ∧ (e.next config pending).exchange.proto = e.proto
      ∧ (e.next config pending).exchange.reusable = none := by
  obtain ⟨_, _, htake⟩ := takeNext_shape e pending
  obtain ⟨-, _, hnext⟩ := next_shape config e pending
  rw [htake] at hnext
  split at hnext
  · obtain ⟨hexchange, hcleanup⟩ := hnext
    rw [hexchange, hcleanup]
    cases hreusable : e.reusable with
    | none => exact .inl ⟨rfl, .of_same rfl rfl rfl hreusable.symm⟩
    | some reusable => exact .inr ⟨reusable, rfl, rfl, rfl, rfl, rfl, rfl⟩
  · rw [hnext.1]
    exact .inl ⟨hnext.2, .of_same rfl rfl rfl rfl⟩

end Rskynet.Http

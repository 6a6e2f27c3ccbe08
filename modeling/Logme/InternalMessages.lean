import Logme.DoLog
import Logme.StructuredOutput

/-!
# Messages of the library itself

The library reports its own troubles to the channel `logme`.  Like any record
they go through `DoLog`, which looks the channel up and creates it when there
is none; a link by name creates its target in the same way.  Nothing else of
the logger changes.
-/

namespace Logme
namespace Logger

/-- Channels are added, under names that `named` allows, and nothing else of
the configuration changes. -/
structure Grows (named : Name → Prop) (l l' : Logger) : Prop where
  extends' : l.Extends l'
  names : ∀ name c, l'.channels.lookup name = some c →
    l.channels.lookup name = some c ∨ named name
  links : ∀ (c : Nat) (channel : Channel) (name : Name), l'.heap[c]? = some channel →
    channel.link = some name → named name ∨ l.heap[c]? = some channel
  blocked : l'.blockedSubsystems = l.blockedSubsystems
  allowed : l'.allowedSubsystems = l.allowedSubsystems
  reported : l'.subsystems = l.subsystems
  levels : l'.subsystemLevels = l.subsystemLevels

variable {named : Name → Prop}

theorem Grows.refl (named : Name → Prop) (l : Logger) : l.Grows named l :=
  ⟨.refl l, fun _ _ h => .inl h, fun _ _ _ h _ => .inr h, rfl, rfl, rfl, rfl⟩

theorem Grows.trans {l₁ l₂ l₃ : Logger} (h₁ : l₁.Grows named l₂)
    (h₂ : l₂.Grows named l₃) : l₁.Grows named l₃ where
  extends' := h₁.extends'.trans h₂.extends'
  names name c h := by
    rcases h₂.names name c h with hold | hnew
    · exact h₁.names name c hold
    · exact .inr hnew
  links c channel name h hlink := by
    rcases h₂.links c channel name h hlink with hnew | hold
    · exact .inl hnew
    · exact h₁.links c channel name hold hlink
  blocked := h₂.blocked.trans h₁.blocked
  allowed := h₂.allowed.trans h₁.allowed
  reported := h₂.reported.trans h₁.reported
  levels := h₂.levels.trans h₁.levels

theorem createChannelInternal_grows (l : Logger) {name : Name}
    (flags : OutputFlags) (level : Level) (hnamed : named name) :
    l.Grows named (l.createChannelInternal name flags level).2 := by
  have hextends := l.createChannelInternal_extends name flags level
  rcases l.createChannelInternal_cases name flags level with hsame | hnew
  · rw [hsame]
    exact .refl named l
  · rw [hnew] at hextends ⊢
    refine ⟨hextends, ?_, ?_, rfl, rfl, rfl, rfl⟩
    · intro other c h
      refine (lookup_append_singleton h).imp_right ?_
      rintro ⟨rfl, -⟩
      exact hnamed
    · intro c channel other h hlink
      rcases hextends.created c channel h with hold | ⟨-, hnone, -⟩
      · exact .inr hold
      · rw [hnone] at hlink
        contradiction

theorem getChannel_grows (l : Logger) {name : Name} (hnamed : named name) :
    l.Grows named (l.getChannel name).2 := by
  unfold getChannel
  split
  next => exact .refl named l
  next => exact l.createChannelInternal_grows _ _ hnamed

theorem linkTarget_grows (l : Logger) {channel : Channel}
    (hnamed : ∀ name, channel.link = some name → named name) :
    l.Grows named (l.linkTarget channel).2 := by
  unfold linkTarget
  split
  next => exact .refl named l
  next name _ hlink => exact l.getChannel_grows (hnamed name hlink)
  next => exact .refl named l

/-- The links by name point to names that may be created. -/
def LinksNamed (named : Name → Prop) (l : Logger) : Prop :=
  ∀ (c : Nat) (channel : Channel) (name : Name), l.heap[c]? = some channel →
    channel.link = some name → named name

theorem LinksNamed.grows {l l' : Logger} (h : l.LinksNamed named)
    (hgrows : l.Grows named l') : l'.LinksNamed named := by
  intro c channel name hc hlink
  rcases hgrows.links c channel name hc hlink with hnew | hold
  · exact hnew
  · exact h c channel name hold hlink

/-! ## What `DoLog` does to the logger -/

def Gate.logger : Gate → Logger
  | .stop l _ => l
  | .pass l _ _ _ _ => l

/-- The gate looks the channel up and changes nothing else. -/
theorem gate_logger (now : Nat) (l : Logger) (context : Context) :
    (gate now l context).logger = l ∨
      (gate now l context).logger = (l.recordChannel context).2 := by
  rw [← recordChannel_admitRecord l context now]
  unfold gate
  split
  next => exact .inl rfl
  next =>
    split
    next => exact .inl rfl
    next =>
      dsimp only
      split
      next => exact .inl rfl
      next =>
        right
        split
        next h => rw [h]; rfl
        next h =>
          rw [h]
          split
          next => rfl
          next =>
            split
            next => rfl
            next =>
              split
              next => rfl
              next => split <;> rfl

section Rules

variable {R : Logger → Logger → Prop} (hrefl : ∀ l, R l l)
  (htrans : ∀ l₁ l₂ l₃, R l₁ l₂ → R l₂ l₃ → R l₁ l₃)
  (htarget : ∀ (l : Logger) (c : Nat) (channel : Channel), l.heap[c]? = some channel →
    R l (l.linkTarget channel).2)

include hrefl htrans htarget

theorem writeRecord_rule {fuel : Nat} {l : Logger} {guard : ReentryState Nat}
    {c : Nat} {channel : Channel} {r : Record} {result : Displayed}
    (h : writeRecord fuel l guard c channel r = some result) : R l result.logger := by
  obtain ⟨own, hown, hrest⟩ := Option.bind_eq_some_iff.mp h
  obtain ⟨copy, hcopy, heq⟩ := Option.map_eq_some_iff.mp hrest
  subst heq
  have hfirst := display_rule hrefl htrans htarget hown
  unfold displayErrorCopy at hcopy
  split at hcopy
  next =>
    cases hcopy
    exact hfirst
  next =>
    have hsecond := display_rule hrefl htrans htarget hcopy
    exact htrans _ _ _ hfirst hsecond

/-- The rule for what `DoLog` does to the logger. -/
theorem doLog_rule {fuel now : Nat} {l : Logger} {guard : ReentryState Nat}
    {context : Context} {logged : Logged} (hrecord : R l (l.recordChannel context).2)
    (h : doLog fuel now l guard context = some logged) : R l logged.displayed.logger := by
  have hgate : R l (gate now l context).logger := by
    rcases gate_logger now l context with heq | heq
    · rw [heq]
      exact hrefl l
    · rw [heq]
      exact hrecord
  unfold doLog at h
  split at h
  next l' context' hstop =>
    rw [hstop] at hgate
    cases h
    exact hgate
  next l' c channel text context' hpass =>
    rw [hpass] at hgate
    obtain ⟨displayed, hdisplayed, rfl⟩ := Option.map_eq_some_iff.mp h
    exact htrans _ _ _ hgate (writeRecord_rule hrefl htrans htarget hdisplayed)

end Rules

theorem doLog_grows {fuel now : Nat} {l : Logger} {guard : ReentryState Nat}
    {context : Context} {logged : Logged} (hchannel : named context.channel)
    (hlinks : l.LinksNamed named)
    (h : doLog fuel now l guard context = some logged) :
    l.Grows named logged.displayed.logger := by
  refine doLog_rule (R := fun l l' => l.LinksNamed named → l.Grows named l')
    (fun l _ => .refl named l) ?_ ?_ ?_ h hlinks
  · intro l₁ l₂ l₃ h₁ h₂ hlinks
    exact (h₁ hlinks).trans (h₂ (hlinks.grows (h₁ hlinks)))
  · intro l c channel hc hlinks
    exact l.linkTarget_grows (hlinks c channel · hc)
  · intro _
    unfold recordChannel
    split
    next => exact .refl named l
    next => exact l.getChannel_grows hchannel

/-! ## A message to the channel `logme` -/

/-- The name of `CHINT`. -/
def internalChannel : Name := ascii "logme"

structure InternalMessage where
  level : Level
  subsystem : Nat
  text : List UInt8

/-- What a message of the library depends on: the logger's condition, the time,
the guard of the thread, and fuel for the links. -/
structure MessageSetting where
  condition : Bool
  now : Nat
  guard : ReentryState Nat
  fuel : Nat

def InternalMessage.context (message : InternalMessage) : Context where
  level := message.level
  subsystem := message.subsystem
  ovr := none
  ch := none
  channel := internalChannel
  text := some message.text
  collapseCache := none
  collapseRepeatCount := 0

def report (setting : MessageSetting) (l : Logger) (message : InternalMessage) :
    Logger :=
  if setting.condition then
    match doLog setting.fuel setting.now l setting.guard message.context with
    | some logged => logged.displayed.logger
    | none => l
  else l

/-- The names that a message may create channels for. -/
def messageNames (l : Logger) (name : Name) : Prop :=
  name = internalChannel ∨ ∃ (c : Nat) (channel : Channel),
    l.heap[c]? = some channel ∧ channel.link = some name

theorem report_grows (setting : MessageSetting) {l : Logger}
    (message : InternalMessage) (hinternal : named internalChannel)
    (hlinks : l.LinksNamed named) : l.Grows named (report setting l message) := by
  unfold report
  split
  next =>
    split
    next logged h => exact doLog_grows hinternal hlinks h
    next => exact .refl named l
  next => exact .refl named l

theorem linksNamed_messageNames (l : Logger) : l.LinksNamed l.messageNames :=
  fun c channel _ hc hlink => .inr ⟨c, channel, hc, hlink⟩

end Logger
end Logme

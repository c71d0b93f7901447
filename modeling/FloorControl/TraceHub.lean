import FloorControl.Event

/-!
# The trace hub

A hub passes on what is published to any number of receivers, each at its own pace. It keeps the
latest events only. A receiver that was too slow is told once how many it has missed, and goes on
with the oldest event that is kept.
-/

namespace FloorControl

structure TraceHub (α : Type) where
  /-- What was published while somebody listened, the latest first. -/
  published : List α := []
  /-- For each receiver the number of events it is past, or `none` when it is gone. -/
  receivers : List (Option Nat) := []
  deriving DecidableEq, Repr

namespace TraceHub

variable {α : Type}

def capacity : Nat := 512

inductive Reception (α : Type) where
  | event (e : α)
  | empty
  /-- That many events have been missed. -/
  | lagged (missed : Nat)
  | dropped
  deriving DecidableEq, Repr

def subscriberCount (h : TraceHub α) : Nat := h.receivers.countP (·.isSome)

/-- Add a receiver, which gets what is published from now on. -/
def subscribe (h : TraceHub α) : TraceHub α :=
  { h with receivers := h.receivers ++ [some h.published.length] }

def drop (i : Nat) (h : TraceHub α) : TraceHub α :=
  { h with receivers := h.receivers.set i none }

/-- Publish an event; without receivers it is forgotten. -/
def publish (e : α) (h : TraceHub α) : TraceHub α :=
  if h.subscriberCount = 0 then h else { h with published := e :: h.published }

/-- The event of a number, counted from zero, if it was published. -/
def event? (h : TraceHub α) (n : Nat) : Option α :=
  if n < h.published.length then h.published[h.published.length - 1 - n]? else none

/-- The number of the oldest event that is kept. -/
def oldest (h : TraceHub α) : Nat := h.published.length - capacity

def receive (i : Nat) (h : TraceHub α) : Reception α × TraceHub α :=
  match (h.receivers[i]?).join with
  | none => (.dropped, h)
  | some next =>
    if next < h.oldest then
      (.lagged (h.oldest - next), { h with receivers := h.receivers.set i (some h.oldest) })
    else
      match h.event? next with
      | none => (.empty, h)
      | some e => (.event e, { h with receivers := h.receivers.set i (some (next + 1)) })

/-- Receive until something comes that is not an event. -/
def drain : (most : Nat) → (i : Nat) → TraceHub α → List α
  | 0, _, _ => []
  | most + 1, i, h =>
    match h.receive i with
    | (.event e, h) => e :: drain most i h
    | _ => []

end TraceHub
end FloorControl

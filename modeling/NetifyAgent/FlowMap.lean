import Mathlib.Data.List.AList
import NetifyAgent.Lib.Runs
import NetifyAgent.Lib.Threads

/-! `ndFlowMap` under several threads. Every capture thread looks a flow up,
tests the limit, inserts the flow and counts it, all while it holds the lock of
the flow's bucket; the instance thread goes through the buckets one lock at a
time, erases flows and subtracts what it erased when it is through. What lies
between two accesses to shared state is one step. -/
namespace NetifyAgent

/-- A flow as `ProcessFlows` sees it. -/
structure MapFlow where
  /-- `flags.expired`. -/
  expired : Bool := false
  /-- `use_count()`, the map's own reference included. -/
  useCount : Nat := 2
  deriving DecidableEq, Repr

/-- A bucket of `ndFlowMap`. -/
abbrev FlowBucket := AList fun _ : List UInt8 => MapFlow

/-- Where a capture thread stands in `ProcessPacket`. In every state but the
first and the last it holds the lock of the digest's bucket. -/
inductive CapturePoint where
  | idle
  /-- The digest was not found. -/
  | missing (digest : List UInt8)
  /-- The limit admits another flow. -/
  | admitted (digest : List UInt8)
  /-- The flow may be inserted. -/
  | accepted (digest : List UInt8)
  | inserted (digest : List UInt8)
  /-- Nothing is left to do but release the bucket. -/
  | leaving (digest : List UInt8)
  /-- The flow was in the map already, the thread threw. -/
  | failed
  deriving DecidableEq, Repr

/-- The digest whose bucket is held. -/
def CapturePoint.digest : CapturePoint → Option (List UInt8)
  | .idle | .failed => none
  | .missing d | .admitted d | .accepted d | .inserted d | .leaving d => some d

/-- Where the instance thread stands in `ProcessFlows`. -/
inductive PurgePoint (buckets : Nat) where
  | idle
  /-- About to acquire a bucket, or through with the last. -/
  | next (b : Nat)
  /-- Holding a bucket, with these flows still ahead. -/
  | walking (b : Fin buckets) (ahead : List (List UInt8))
  deriving DecidableEq, Repr

/-- The owner of a bucket's lock. -/
inductive LockOwner (threads : Nat) where
  | capture (i : Fin threads)
  | instance_
  deriving DecidableEq, Repr

/-- The shared state and where every thread stands. -/
structure FlowSystem (threads buckets : Nat) where
  bucket : Fin buckets → FlowBucket := fun _ => ∅
  bucketLock : Fin buckets → Option (LockOwner threads) := fun _ => none
  /-- `status.flows`. -/
  flows : Nat := 0
  /-- `status.flows_purged`. -/
  flowsPurged : Nat := 0
  capture : Fin threads → CapturePoint := fun _ => .idle
  purge : PurgePoint buckets := .idle

/-- The steps of the threads, and what other holders of a flow do to it. -/
inductive FlowAction (threads : Nat) where
  /-- `Lookup(flow_digest, true)`. -/
  | lookup (i : Fin threads) (digest : List UInt8)
  /-- The test of `max_flows`. -/
  | limit (i : Fin threads)
  /-- SYN scan protection, which may refuse the flow. -/
  | scan (i : Fin threads) (refused : Bool)
  /-- `InsertUnlocked`. -/
  | insert (i : Fin threads)
  /-- `status.flows++`. -/
  | count (i : Fin threads)
  | release (i : Fin threads)
  /-- `ProcessFlows` starts. -/
  | start
  | acquire
  /-- The next flow of the bucket. -/
  | visit
  | releaseBucket
  /-- `status.flows -= status.flows_purged`. -/
  | finish
  /-- Detection expires a flow, or references to it come and go. -/
  | change (digest : List UInt8) (flow : MapFlow)
  deriving DecidableEq, Repr

namespace FlowSystem

variable {threads buckets : Nat}

/-- The first eight bytes of a digest, as a little-endian machine loads them. -/
def digestWord (digest : List UInt8) : Nat :=
  (digest.take 8).foldr (fun b n => b.toNat + 256 * n) 0

/-- `HashToBucket`. -/
def hashToBucket (buckets : Nat) [NeZero buckets] (digest : List UInt8) : Fin buckets :=
  Fin.ofNat buckets (digestWord digest)

def setCapture (i : Fin threads) (p : CapturePoint) (t : FlowSystem threads buckets) :
    FlowSystem threads buckets :=
  { t with capture := Function.update t.capture i p }

def setLock (b : Fin buckets) (o : Option (LockOwner threads)) (t : FlowSystem threads buckets) :
    FlowSystem threads buckets :=
  { t with bucketLock := Function.update t.bucketLock b o }

def setBucket (b : Fin buckets) (m : FlowBucket) (t : FlowSystem threads buckets) :
    FlowSystem threads buckets :=
  { t with bucket := Function.update t.bucket b m }

/-- A step of the instance thread. -/
def purgeStep (t : FlowSystem threads buckets) :
    FlowAction threads → Option (FlowSystem threads buckets)
  | .start =>
    if t.purge = .idle then some { t with flowsPurged := 0, purge := .next 0 } else none
  | .acquire =>
    match t.purge with
    | .next b =>
      if inside : b < buckets then
        if t.bucketLock ⟨b, inside⟩ = none then
          some { t.setLock ⟨b, inside⟩ (some .instance_) with
            purge := .walking ⟨b, inside⟩ (t.bucket ⟨b, inside⟩).keys }
        else none
      else none
    | _ => none
  | .visit =>
    match t.purge with
    | .walking b (digest :: ahead) =>
      match (t.bucket b).lookup digest with
      | some flow =>
        if flow.expired ∧ flow.useCount = 1 then
          some { t.setBucket b ((t.bucket b).erase digest) with
            flowsPurged := t.flowsPurged + 1
            purge := .walking b ahead }
        else some { t with purge := .walking b ahead }
      | none => none
    | _ => none
  | .releaseBucket =>
    match t.purge with
    | .walking b [] => some { t.setLock b none with purge := .next (b + 1) }
    | _ => none
  | .finish =>
    match t.purge with
    | .next b =>
      if b < buckets then none
      else some { t with flows := t.flows - t.flowsPurged, purge := .idle }
    | _ => none
  | _ => none

variable [NeZero buckets]

/-- A step of the capture thread `i`. -/
def captureStep (maxFlows : Nat) (i : Fin threads) (t : FlowSystem threads buckets) :
    FlowAction threads → Option (FlowSystem threads buckets)
  | .lookup _ digest =>
    let b := hashToBucket buckets digest
    if t.capture i = .idle ∧ t.bucketLock b = none then
      some ((t.setLock b (some (.capture i))).setCapture i
        (if (t.bucket b).lookup digest = none then .missing digest else .leaving digest))
    else none
  | .limit _ =>
    match t.capture i with
    | .missing digest =>
      some (t.setCapture i
        (if 0 < maxFlows ∧ maxFlows < t.flows + 1 then .leaving digest else .admitted digest))
    | _ => none
  | .scan _ refused =>
    match t.capture i with
    | .admitted digest =>
      some (t.setCapture i (if refused then .leaving digest else .accepted digest))
    | _ => none
  | .insert _ =>
    match t.capture i with
    | .accepted digest =>
      let b := hashToBucket buckets digest
      if (t.bucket b).lookup digest = none then
        some ((t.setBucket b ((t.bucket b).insert digest {})).setCapture i (.inserted digest))
      else some ((t.setLock b none).setCapture i .failed)
    | _ => none
  | .count _ =>
    match t.capture i with
    | .inserted digest => some ({ t with flows := t.flows + 1 }.setCapture i (.leaving digest))
    | _ => none
  | .release _ =>
    match t.capture i with
    | .leaving digest =>
      some ((t.setLock (hashToBucket buckets digest) none).setCapture i .idle)
    | _ => none
  | _ => none

/-- One step of any thread. -/
def step (maxFlows : Nat) (t : FlowSystem threads buckets) (action : FlowAction threads) :
    Option (FlowSystem threads buckets) :=
  match action with
  | .lookup i _ | .limit i | .scan i _ | .insert i | .count i | .release i =>
    t.captureStep maxFlows i action
  | .start | .acquire | .visit | .releaseBucket | .finish => t.purgeStep action
  | .change digest flow =>
    let b := hashToBucket buckets digest
    if (t.bucket b).lookup digest = none then none
    else some (t.setBucket b ((t.bucket b).insert digest flow))

end FlowSystem

end NetifyAgent

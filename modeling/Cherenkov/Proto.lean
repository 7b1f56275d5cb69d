import Cherenkov.Library.Message

/-! The types that `prost` generates, with their fields and tags. A frame is a oneof: it has at most
one kind. -/

namespace Cherenkov.Proto

open Wire

structure Connect where
  requestId : Nat
  token : String
  deriving DecidableEq, Repr

structure ConnectOk where
  requestId : Nat
  subject : String
  expiresAt : Nat
  deriving DecidableEq, Repr

structure Subscribe where
  requestId : Nat
  channel : String
  sinceOffset : Nat
  deriving DecidableEq, Repr

structure Unsubscribe where
  requestId : Nat
  channel : String
  deriving DecidableEq, Repr

structure Publish where
  requestId : Nat
  channel : String
  data : List UInt8
  deriving DecidableEq, Repr

structure SubscribeOk where
  requestId : Nat
  channel : String
  epoch : Nat
  offset : Nat
  deriving DecidableEq, Repr

structure UnsubscribeOk where
  requestId : Nat
  channel : String
  deriving DecidableEq, Repr

structure Publication where
  channel : String
  offset : Nat
  data : List UInt8
  deriving DecidableEq, Repr

structure Error where
  requestId : Nat
  code : Nat
  message : String
  deriving DecidableEq, Repr

def Connect.schema : Schema Connect where
  fields := [
    uint64.field 1 Connect.requestId fun v m => { m with requestId := v },
    string.field 2 Connect.token fun v m => { m with token := v }]
  default := ⟨0, ""⟩
  norm m := m
  distinct := by decide
  valid := by decide
  fresh m := by simp +contextual [Fresh, uint64, string]
  copied m := rfl

def ConnectOk.schema : Schema ConnectOk where
  fields := [
    uint64.field 1 ConnectOk.requestId fun v m => { m with requestId := v },
    string.field 2 ConnectOk.subject fun v m => { m with subject := v },
    uint64.field 3 ConnectOk.expiresAt fun v m => { m with expiresAt := v }]
  default := ⟨0, "", 0⟩
  norm m := m
  distinct := by decide
  valid := by decide
  fresh m := by simp +contextual [Fresh, uint64, string]
  copied m := rfl

def Subscribe.schema : Schema Subscribe where
  fields := [
    uint64.field 1 Subscribe.requestId fun v m => { m with requestId := v },
    string.field 2 Subscribe.channel fun v m => { m with channel := v },
    uint64.field 3 Subscribe.sinceOffset fun v m => { m with sinceOffset := v }]
  default := ⟨0, "", 0⟩
  norm m := m
  distinct := by decide
  valid := by decide
  fresh m := by simp +contextual [Fresh, uint64, string]
  copied m := rfl

def Unsubscribe.schema : Schema Unsubscribe where
  fields := [
    uint64.field 1 Unsubscribe.requestId fun v m => { m with requestId := v },
    string.field 2 Unsubscribe.channel fun v m => { m with channel := v }]
  default := ⟨0, ""⟩
  norm m := m
  distinct := by decide
  valid := by decide
  fresh m := by simp +contextual [Fresh, uint64, string]
  copied m := rfl

def Publish.schema : Schema Publish where
  fields := [
    uint64.field 1 Publish.requestId fun v m => { m with requestId := v },
    string.field 2 Publish.channel fun v m => { m with channel := v },
    bytes.field 3 Publish.data fun v m => { m with data := v }]
  default := ⟨0, "", []⟩
  norm m := m
  distinct := by decide
  valid := by decide
  fresh m := by simp +contextual [Fresh, uint64, string, bytes]
  copied m := rfl

def SubscribeOk.schema : Schema SubscribeOk where
  fields := [
    uint64.field 1 SubscribeOk.requestId fun v m => { m with requestId := v },
    string.field 2 SubscribeOk.channel fun v m => { m with channel := v },
    uint64.field 3 SubscribeOk.epoch fun v m => { m with epoch := v },
    uint64.field 4 SubscribeOk.offset fun v m => { m with offset := v }]
  default := ⟨0, "", 0, 0⟩
  norm m := m
  distinct := by decide
  valid := by decide
  fresh m := by simp +contextual [Fresh, uint64, string]
  copied m := rfl

def UnsubscribeOk.schema : Schema UnsubscribeOk where
  fields := [
    uint64.field 1 UnsubscribeOk.requestId fun v m => { m with requestId := v },
    string.field 2 UnsubscribeOk.channel fun v m => { m with channel := v }]
  default := ⟨0, ""⟩
  norm m := m
  distinct := by decide
  valid := by decide
  fresh m := by simp +contextual [Fresh, uint64, string]
  copied m := rfl

def Publication.schema : Schema Publication where
  fields := [
    string.field 1 Publication.channel fun v m => { m with channel := v },
    uint64.field 2 Publication.offset fun v m => { m with offset := v },
    bytes.field 3 Publication.data fun v m => { m with data := v }]
  default := ⟨"", 0, []⟩
  norm m := m
  distinct := by decide
  valid := by decide
  fresh m := by simp +contextual [Fresh, string, uint64, bytes]
  copied m := rfl

def Error.schema : Schema Error where
  fields := [
    uint64.field 1 Error.requestId fun v m => { m with requestId := v },
    uint32.field 2 Error.code fun v m => { m with code := v },
    string.field 3 Error.message fun v m => { m with message := v }]
  default := ⟨0, 0, ""⟩
  norm m := { m with code := m.code % 2 ^ 32 }
  distinct := by decide
  valid := by decide
  fresh m := by simp +contextual [Fresh, uint64, uint32, string]
  copied m := rfl

inductive ClientKind where
  | subscribe (m : Subscribe)
  | unsubscribe (m : Unsubscribe)
  | publish (m : Publish)
  | connect (m : Connect)
  deriving DecidableEq, Repr

structure ClientFrame where
  kind : Option ClientKind
  deriving DecidableEq, Repr

def ClientKind.encode : ClientKind → List UInt8
  | .subscribe m => encodeVariant 1 (Subscribe.schema.encode m)
  | .unsubscribe m => encodeVariant 2 (Unsubscribe.schema.encode m)
  | .publish m => encodeVariant 3 (Publish.schema.encode m)
  | .connect m => encodeVariant 4 (Connect.schema.encode m)

def ClientKind.variants : List (Variant ClientKind) := [
  Subscribe.schema.variant 1 .subscribe fun
    | .subscribe m => some m
    | _ => none,
  Unsubscribe.schema.variant 2 .unsubscribe fun
    | .unsubscribe m => some m
    | _ => none,
  Publish.schema.variant 3 .publish fun
    | .publish m => some m
    | _ => none,
  Connect.schema.variant 4 .connect fun
    | .connect m => some m
    | _ => none]

def ClientFrame.encode (frame : ClientFrame) : List UInt8 :=
  match frame.kind with
  | some kind => kind.encode
  | none => []

def ClientFrame.decode (bs : List UInt8) : Option ClientFrame :=
  (Wire.decode (mergeOneof ClientKind.variants) none bs).map ClientFrame.mk

inductive ServerKind where
  | subscribeOk (m : SubscribeOk)
  | unsubscribeOk (m : UnsubscribeOk)
  | publication (m : Publication)
  | error (m : Error)
  | connectOk (m : ConnectOk)
  deriving DecidableEq, Repr

structure ServerFrame where
  kind : Option ServerKind
  deriving DecidableEq, Repr

def ServerKind.encode : ServerKind → List UInt8
  | .subscribeOk m => encodeVariant 1 (SubscribeOk.schema.encode m)
  | .unsubscribeOk m => encodeVariant 2 (UnsubscribeOk.schema.encode m)
  | .publication m => encodeVariant 3 (Publication.schema.encode m)
  | .error m => encodeVariant 4 (Error.schema.encode m)
  | .connectOk m => encodeVariant 5 (ConnectOk.schema.encode m)

def ServerKind.variants : List (Variant ServerKind) := [
  SubscribeOk.schema.variant 1 .subscribeOk fun
    | .subscribeOk m => some m
    | _ => none,
  UnsubscribeOk.schema.variant 2 .unsubscribeOk fun
    | .unsubscribeOk m => some m
    | _ => none,
  Publication.schema.variant 3 .publication fun
    | .publication m => some m
    | _ => none,
  Error.schema.variant 4 .error fun
    | .error m => some m
    | _ => none,
  ConnectOk.schema.variant 5 .connectOk fun
    | .connectOk m => some m
    | _ => none]

def ServerFrame.encode (frame : ServerFrame) : List UInt8 :=
  match frame.kind with
  | some kind => kind.encode
  | none => []

def ServerFrame.decode (bs : List UInt8) : Option ServerFrame :=
  (Wire.decode (mergeOneof ServerKind.variants) none bs).map ServerFrame.mk

end Cherenkov.Proto

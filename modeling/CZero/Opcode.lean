import CZero.Text.Bytes

/-!
# Opcodes

The first byte of every instruction. Six opcodes are reserved: they have names,
but no machine carries them out.
-/

namespace CZero

/-- An opcode. -/
inductive Opcode where
  | nop | aconstNull | bipush | ildc | aldc
  | vload | imload | amload | cmload
  | vstore | imstore | amstore | cmstore
  | pop | dup | swap
  | iadd | aaddf | aadds | isub | imul | idiv | irem | ishl | ishr | iand | ior | ixor
  | ifCmpeq | ifCmpne | ifIcmplt | ifIcmpge | ifIcmpgt | ifIcmple | goto
  | ret | invokenative | invokestatic
  | new | newarray | arraylength
  | athrow | assert
  | addrofStatic | addrofNative | invokedynamic | checktag | hastag | addtag
deriving DecidableEq, Repr

namespace Opcode

/-- The byte of an opcode. -/
def byte : Opcode → UInt8
  | .nop => 0x00
  | .aconstNull => 0x01
  | .bipush => 0x10
  | .ildc => 0x13
  | .aldc => 0x14
  | .vload => 0x15
  | .addrofStatic => 0x16
  | .addrofNative => 0x17
  | .imload => 0x2E
  | .amload => 0x2F
  | .cmload => 0x34
  | .vstore => 0x36
  | .imstore => 0x4E
  | .amstore => 0x4F
  | .cmstore => 0x55
  | .pop => 0x57
  | .dup => 0x59
  | .swap => 0x5F
  | .iadd => 0x60
  | .aaddf => 0x62
  | .aadds => 0x63
  | .isub => 0x64
  | .imul => 0x68
  | .idiv => 0x6C
  | .irem => 0x70
  | .ishl => 0x78
  | .ishr => 0x7A
  | .iand => 0x7E
  | .ior => 0x80
  | .ixor => 0x82
  | .ifCmpeq => 0x9F
  | .ifCmpne => 0xA0
  | .ifIcmplt => 0xA1
  | .ifIcmpge => 0xA2
  | .ifIcmpgt => 0xA3
  | .ifIcmple => 0xA4
  | .goto => 0xA7
  | .ret => 0xB0
  | .invokedynamic => 0xB6
  | .invokenative => 0xB7
  | .invokestatic => 0xB8
  | .new => 0xBB
  | .newarray => 0xBC
  | .arraylength => 0xBE
  | .athrow => 0xBF
  | .checktag => 0xC0
  | .hastag => 0xC1
  | .addtag => 0xC2
  | .assert => 0xCF

/-- The opcode of a byte, if it is one. -/
def ofByte? (b : UInt8) : Option Opcode :=
  match b with
  | 0x00 => some .nop
  | 0x01 => some .aconstNull
  | 0x10 => some .bipush
  | 0x13 => some .ildc
  | 0x14 => some .aldc
  | 0x15 => some .vload
  | 0x16 => some .addrofStatic
  | 0x17 => some .addrofNative
  | 0x2E => some .imload
  | 0x2F => some .amload
  | 0x34 => some .cmload
  | 0x36 => some .vstore
  | 0x4E => some .imstore
  | 0x4F => some .amstore
  | 0x55 => some .cmstore
  | 0x57 => some .pop
  | 0x59 => some .dup
  | 0x5F => some .swap
  | 0x60 => some .iadd
  | 0x62 => some .aaddf
  | 0x63 => some .aadds
  | 0x64 => some .isub
  | 0x68 => some .imul
  | 0x6C => some .idiv
  | 0x70 => some .irem
  | 0x78 => some .ishl
  | 0x7A => some .ishr
  | 0x7E => some .iand
  | 0x80 => some .ior
  | 0x82 => some .ixor
  | 0x9F => some .ifCmpeq
  | 0xA0 => some .ifCmpne
  | 0xA1 => some .ifIcmplt
  | 0xA2 => some .ifIcmpge
  | 0xA3 => some .ifIcmpgt
  | 0xA4 => some .ifIcmple
  | 0xA7 => some .goto
  | 0xB0 => some .ret
  | 0xB6 => some .invokedynamic
  | 0xB7 => some .invokenative
  | 0xB8 => some .invokestatic
  | 0xBB => some .new
  | 0xBC => some .newarray
  | 0xBE => some .arraylength
  | 0xBF => some .athrow
  | 0xC0 => some .checktag
  | 0xC1 => some .hastag
  | 0xC2 => some .addtag
  | 0xCF => some .assert
  | _ => none

/-- The mnemonic of an opcode. -/
def mnemonic : Opcode → String
  | .nop => "nop"
  | .aconstNull => "aconst_null"
  | .bipush => "bipush"
  | .ildc => "ildc"
  | .aldc => "aldc"
  | .vload => "vload"
  | .imload => "imload"
  | .amload => "amload"
  | .cmload => "cmload"
  | .vstore => "vstore"
  | .imstore => "imstore"
  | .amstore => "amstore"
  | .cmstore => "cmstore"
  | .pop => "pop"
  | .dup => "dup"
  | .swap => "swap"
  | .iadd => "iadd"
  | .aaddf => "aaddf"
  | .aadds => "aadds"
  | .isub => "isub"
  | .imul => "imul"
  | .idiv => "idiv"
  | .irem => "irem"
  | .ishl => "ishl"
  | .ishr => "ishr"
  | .iand => "iand"
  | .ior => "ior"
  | .ixor => "ixor"
  | .ifCmpeq => "if_cmpeq"
  | .ifCmpne => "if_cmpne"
  | .ifIcmplt => "if_icmplt"
  | .ifIcmpge => "if_icmpge"
  | .ifIcmpgt => "if_icmpgt"
  | .ifIcmple => "if_icmple"
  | .goto => "goto"
  | .ret => "return"
  | .invokenative => "invokenative"
  | .invokestatic => "invokestatic"
  | .new => "new"
  | .newarray => "newarray"
  | .arraylength => "arraylength"
  | .athrow => "athrow"
  | .assert => "assert"
  | .addrofStatic => "addrof_static"
  | .addrofNative => "addrof_native"
  | .invokedynamic => "invokedynamic"
  | .checktag => "checktag"
  | .hastag => "hastag"
  | .addtag => "addtag"

/-- What a byte of code is called: its mnemonic, or its number if it is no opcode. -/
def nameOf (b : UInt8) : Bytes :=
  match ofByte? b with
  | some op => utf8 op.mnemonic
  | none => utf8 "0x" ++ hexByte b

end Opcode

end CZero

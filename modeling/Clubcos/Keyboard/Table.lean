import Clubcos.Terminal.Array

/-!
# keytable.c: the key table

A key code below 0x59 is a scan code without a prefix; from there on come the keys with the prefix 0xE0, and
Pause.  `bPushedKey`, the only field that changes, is kept apart from the table.
-/

namespace Clubcos

namespace Cascii

def none : Byte := 0x00
def enter : Byte := 0x0a
def tab : Byte := 0x09
def esc : Byte := 0x1b
def backspace : Byte := 0x08
def lctrl : Byte := 0x81
def lshift : Byte := 0x82
def rshift : Byte := 0x83
def lalt : Byte := 0x85
def capsLock : Byte := 0x86
def f1 : Byte := 0x87
def f2 : Byte := 0x88
def f3 : Byte := 0x89
def f4 : Byte := 0x8a
def f5 : Byte := 0x8b
def f6 : Byte := 0x8c
def f7 : Byte := 0x8d
def f8 : Byte := 0x8e
def f9 : Byte := 0x8f
def f10 : Byte := 0x90
def numLock : Byte := 0x91
def scrollLock : Byte := 0x92
def numHome : Byte := 0x93
def numUp : Byte := 0x94
def numPageUp : Byte := 0x95
def numLeft : Byte := 0x96
def numCenter : Byte := 0x97
def numRight : Byte := 0x98
def numEnd : Byte := 0x99
def numDown : Byte := 0x9a
def numPageDown : Byte := 0x9b
def numIns : Byte := 0x9c
def numDel : Byte := 0x9d
def f11 : Byte := 0x9e
def f12 : Byte := 0x9f
def numEnter : Byte := 0xa0
def rctrl : Byte := 0xa1
def numSlash : Byte := 0xa2
def ralt : Byte := 0xa3
def home : Byte := 0xa4
def up : Byte := 0xa5
def pageUp : Byte := 0xa6
def left : Byte := 0xa7
def right : Byte := 0xa8
def endKey : Byte := 0xa9
def down : Byte := 0xaa
def pageDown : Byte := 0xab
def insert : Byte := 0xac
def delete : Byte := 0xad
def pause : Byte := 0xae

end Cascii

structure KeyStruct where
  normalKey : Byte
  combinedKey : Byte
deriving DecidableEq

def ascii (c : Char) : Byte := BitVec.ofNat 8 c.toNat

def g_KeyTable : List KeyStruct := [
  /- 0x00 -/ ⟨Cascii.none, Cascii.none⟩,
  /- 0x01 -/ ⟨Cascii.esc, Cascii.esc⟩,
  /- 0x02 -/ ⟨ascii '1', ascii '!'⟩,
  /- 0x03 -/ ⟨ascii '2', ascii '@'⟩,
  /- 0x04 -/ ⟨ascii '3', ascii '#'⟩,
  /- 0x05 -/ ⟨ascii '4', ascii '$'⟩,
  /- 0x06 -/ ⟨ascii '5', ascii '%'⟩,
  /- 0x07 -/ ⟨ascii '6', ascii '^'⟩,
  /- 0x08 -/ ⟨ascii '7', ascii '&'⟩,
  /- 0x09 -/ ⟨ascii '8', ascii '*'⟩,
  /- 0x0A -/ ⟨ascii '9', ascii '('⟩,
  /- 0x0B -/ ⟨ascii '0', ascii ')'⟩,
  /- 0x0C -/ ⟨ascii '-', ascii '_'⟩,
  /- 0x0D -/ ⟨ascii '=', ascii '+'⟩,
  /- 0x0E -/ ⟨Cascii.backspace, Cascii.backspace⟩,
  /- 0x0F -/ ⟨Cascii.tab, Cascii.tab⟩,
  /- 0x10 -/ ⟨ascii 'q', ascii 'Q'⟩,
  /- 0x11 -/ ⟨ascii 'w', ascii 'W'⟩,
  /- 0x12 -/ ⟨ascii 'e', ascii 'E'⟩,
  /- 0x13 -/ ⟨ascii 'r', ascii 'R'⟩,
  /- 0x14 -/ ⟨ascii 't', ascii 'T'⟩,
  /- 0x15 -/ ⟨ascii 'y', ascii 'Y'⟩,
  /- 0x16 -/ ⟨ascii 'u', ascii 'U'⟩,
  /- 0x17 -/ ⟨ascii 'i', ascii 'I'⟩,
  /- 0x18 -/ ⟨ascii 'o', ascii 'O'⟩,
  /- 0x19 -/ ⟨ascii 'p', ascii 'P'⟩,
  /- 0x1A -/ ⟨ascii '[', 0x7b⟩,
  /- 0x1B -/ ⟨ascii ']', 0x7d⟩,
  /- 0x1C -/ ⟨0x0a, 0x0a⟩,
  /- 0x1D -/ ⟨Cascii.lctrl, Cascii.lctrl⟩,
  /- 0x1E -/ ⟨ascii 'a', ascii 'A'⟩,
  /- 0x1F -/ ⟨ascii 's', ascii 'S'⟩,
  /- 0x20 -/ ⟨ascii 'd', ascii 'D'⟩,
  /- 0x21 -/ ⟨ascii 'f', ascii 'F'⟩,
  /- 0x22 -/ ⟨ascii 'g', ascii 'G'⟩,
  /- 0x23 -/ ⟨ascii 'h', ascii 'H'⟩,
  /- 0x24 -/ ⟨ascii 'j', ascii 'J'⟩,
  /- 0x25 -/ ⟨ascii 'k', ascii 'K'⟩,
  /- 0x26 -/ ⟨ascii 'l', ascii 'L'⟩,
  /- 0x27 -/ ⟨ascii ';', ascii ':'⟩,
  /- 0x28 -/ ⟨0x27, 0x22⟩,
  /- 0x29 -/ ⟨0x60, ascii '~'⟩,
  /- 0x2A -/ ⟨Cascii.lshift, Cascii.lshift⟩,
  /- 0x2B -/ ⟨0x5c, ascii '|'⟩,
  /- 0x2C -/ ⟨ascii 'z', ascii 'Z'⟩,
  /- 0x2D -/ ⟨ascii 'x', ascii 'X'⟩,
  /- 0x2E -/ ⟨ascii 'c', ascii 'C'⟩,
  /- 0x2F -/ ⟨ascii 'v', ascii 'V'⟩,
  /- 0x30 -/ ⟨ascii 'b', ascii 'B'⟩,
  /- 0x31 -/ ⟨ascii 'n', ascii 'N'⟩,
  /- 0x32 -/ ⟨ascii 'm', ascii 'M'⟩,
  /- 0x33 -/ ⟨ascii ',', ascii '<'⟩,
  /- 0x34 -/ ⟨ascii '.', ascii '>'⟩,
  /- 0x35 -/ ⟨ascii '/', ascii '?'⟩,
  /- 0x36 -/ ⟨Cascii.rshift, Cascii.rshift⟩,
  /- 0x37 -/ ⟨ascii '*', ascii '*'⟩,
  /- 0x38 -/ ⟨Cascii.lalt, Cascii.lalt⟩,
  /- 0x39 -/ ⟨ascii ' ', ascii ' '⟩,
  /- 0x3A -/ ⟨Cascii.capsLock, Cascii.capsLock⟩,
  /- 0x3B -/ ⟨Cascii.f1, Cascii.f1⟩,
  /- 0x3C -/ ⟨Cascii.f2, Cascii.f2⟩,
  /- 0x3D -/ ⟨Cascii.f3, Cascii.f3⟩,
  /- 0x3E -/ ⟨Cascii.f4, Cascii.f4⟩,
  /- 0x3F -/ ⟨Cascii.f5, Cascii.f5⟩,
  /- 0x40 -/ ⟨Cascii.f6, Cascii.f6⟩,
  /- 0x41 -/ ⟨Cascii.f7, Cascii.f7⟩,
  /- 0x42 -/ ⟨Cascii.f8, Cascii.f8⟩,
  /- 0x43 -/ ⟨Cascii.f9, Cascii.f9⟩,
  /- 0x44 -/ ⟨Cascii.f10, Cascii.f10⟩,
  /- 0x45 -/ ⟨Cascii.numLock, Cascii.numLock⟩,
  /- 0x46 -/ ⟨Cascii.scrollLock, Cascii.scrollLock⟩,
  /- 0x47 -/ ⟨Cascii.numHome, ascii '7'⟩,
  /- 0x48 -/ ⟨Cascii.numUp, ascii '8'⟩,
  /- 0x49 -/ ⟨Cascii.numPageUp, ascii '9'⟩,
  /- 0x4A -/ ⟨ascii '-', ascii '-'⟩,
  /- 0x4B -/ ⟨Cascii.numLeft, ascii '4'⟩,
  /- 0x4C -/ ⟨Cascii.numCenter, ascii '5'⟩,
  /- 0x4D -/ ⟨Cascii.numRight, ascii '6'⟩,
  /- 0x4E -/ ⟨ascii '+', ascii '+'⟩,
  /- 0x4F -/ ⟨Cascii.numEnd, ascii '1'⟩,
  /- 0x50 -/ ⟨Cascii.numDown, ascii '2'⟩,
  /- 0x51 -/ ⟨Cascii.numPageDown, ascii '3'⟩,
  /- 0x52 -/ ⟨Cascii.numIns, ascii '0'⟩,
  /- 0x53 -/ ⟨Cascii.numDel, ascii '.'⟩,
  /- 0x54 -/ ⟨Cascii.none, Cascii.none⟩,
  /- 0x55 -/ ⟨Cascii.none, Cascii.none⟩,
  /- 0x56 -/ ⟨Cascii.none, Cascii.none⟩,
  /- 0x57 -/ ⟨Cascii.f11, Cascii.f11⟩,
  /- 0x58 -/ ⟨Cascii.f12, Cascii.f12⟩,
  /- 0x59 -/ ⟨Cascii.numEnter, Cascii.enter⟩,
  /- 0x5A -/ ⟨Cascii.rctrl, Cascii.rctrl⟩,
  /- 0x5B -/ ⟨Cascii.none, Cascii.none⟩,
  /- 0x5C -/ ⟨Cascii.none, Cascii.none⟩,
  /- 0x5D -/ ⟨Cascii.none, Cascii.none⟩,
  /- 0x5E -/ ⟨Cascii.none, Cascii.none⟩,
  /- 0x5F -/ ⟨Cascii.none, Cascii.none⟩,
  /- 0x60 -/ ⟨Cascii.none, Cascii.none⟩,
  /- 0x61 -/ ⟨Cascii.none, Cascii.none⟩,
  /- 0x62 -/ ⟨Cascii.none, Cascii.none⟩,
  /- 0x63 -/ ⟨Cascii.none, Cascii.none⟩,
  /- 0x64 -/ ⟨Cascii.none, Cascii.none⟩,
  /- 0x65 -/ ⟨Cascii.none, Cascii.none⟩,
  /- 0x66 -/ ⟨Cascii.none, Cascii.none⟩,
  /- 0x67 -/ ⟨Cascii.none, Cascii.none⟩,
  /- 0x68 -/ ⟨Cascii.none, Cascii.none⟩,
  /- 0x69 -/ ⟨Cascii.none, Cascii.none⟩,
  /- 0x6A -/ ⟨Cascii.none, Cascii.none⟩,
  /- 0x6B -/ ⟨Cascii.none, Cascii.none⟩,
  /- 0x6C -/ ⟨Cascii.none, Cascii.none⟩,
  /- 0x6D -/ ⟨Cascii.none, Cascii.none⟩,
  /- 0x6E -/ ⟨Cascii.none, Cascii.none⟩,
  /- 0x6F -/ ⟨Cascii.none, Cascii.none⟩,
  /- 0x70 -/ ⟨Cascii.none, Cascii.none⟩,
  /- 0x71 -/ ⟨Cascii.none, Cascii.none⟩,
  /- 0x72 -/ ⟨Cascii.numSlash, ascii '/'⟩,
  /- 0x73 -/ ⟨Cascii.none, Cascii.none⟩,
  /- 0x74 -/ ⟨Cascii.none, Cascii.none⟩,
  /- 0x75 -/ ⟨Cascii.ralt, Cascii.ralt⟩,
  /- 0x76 -/ ⟨Cascii.none, Cascii.none⟩,
  /- 0x77 -/ ⟨Cascii.none, Cascii.none⟩,
  /- 0x78 -/ ⟨Cascii.none, Cascii.none⟩,
  /- 0x79 -/ ⟨Cascii.none, Cascii.none⟩,
  /- 0x7A -/ ⟨Cascii.none, Cascii.none⟩,
  /- 0x7B -/ ⟨Cascii.none, Cascii.none⟩,
  /- 0x7C -/ ⟨Cascii.none, Cascii.none⟩,
  /- 0x7D -/ ⟨Cascii.none, Cascii.none⟩,
  /- 0x7E -/ ⟨Cascii.none, Cascii.none⟩,
  /- 0x7F -/ ⟨Cascii.none, Cascii.none⟩,
  /- 0x80 -/ ⟨Cascii.none, Cascii.none⟩,
  /- 0x81 -/ ⟨Cascii.none, Cascii.none⟩,
  /- 0x82 -/ ⟨Cascii.none, Cascii.none⟩,
  /- 0x83 -/ ⟨Cascii.none, Cascii.none⟩,
  /- 0x84 -/ ⟨Cascii.home, Cascii.home⟩,
  /- 0x85 -/ ⟨Cascii.up, Cascii.up⟩,
  /- 0x86 -/ ⟨Cascii.pageUp, Cascii.pageUp⟩,
  /- 0x87 -/ ⟨Cascii.none, Cascii.none⟩,
  /- 0x88 -/ ⟨Cascii.left, Cascii.left⟩,
  /- 0x89 -/ ⟨Cascii.none, Cascii.none⟩,
  /- 0x8A -/ ⟨Cascii.right, Cascii.right⟩,
  /- 0x8B -/ ⟨Cascii.none, Cascii.none⟩,
  /- 0x8C -/ ⟨Cascii.endKey, Cascii.endKey⟩,
  /- 0x8D -/ ⟨Cascii.down, Cascii.down⟩,
  /- 0x8E -/ ⟨Cascii.pageDown, Cascii.pageDown⟩,
  /- 0x8F -/ ⟨Cascii.insert, Cascii.insert⟩,
  /- 0x90 -/ ⟨Cascii.delete, Cascii.delete⟩,
  /- 0x91 -/ ⟨Cascii.pause, Cascii.pause⟩
]

def keycodeNumMin : Nat := 0x47
def keycodeNumMax : Nat := 0x53
def keycodePause : BitVec 16 := 0x91
def keycodeFlagUnpush : BitVec 16 := 0x100

def scanCodeRShift : Nat := 0x36
def scanCodeLShift : Nat := 0x2a

end Clubcos
